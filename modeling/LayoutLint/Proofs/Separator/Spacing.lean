import LayoutLint.Proofs.Separator.Unrepeated
import LayoutLint.Proofs.Text.BlankRuns
import LayoutLint.Rule

/-! # Blank lines around a separator

A separator passes with one blank line above it and one below. At the end of the text none need
follow, and at its beginning none need come before. The counts of blank lines say this in terms of
the lines themselves, also where such a line is missing.
-/

namespace LayoutLint

/-! ## Single blank lines -/

namespace SourceText

variable (t : SourceText)

/-- The line above is blank, and the one above that is not or does not exist. -/
def OneBlankAbove (n : Nat) : Prop :=
  ∃ i, n = i + 1 ∧ t.isBlankLine i = true ∧ ∀ j, i = j + 1 → t.isBlankLine j = false

def OneBlankBelow (n : Nat) : Prop :=
  t.isBlankLine (n + 1) = true ∧ t.isBlankLine (n + 2) = false

theorem blankLinesBefore_eq_one_iff {n : Nat} : t.blankLinesBefore n = 1 ↔ t.OneBlankAbove n := by
  have hone := t.le_blankLinesBefore_iff (k := 1) (n := n)
  have htwo := t.le_blankLinesBefore_iff (k := 2) (n := n)
  constructor
  · intro h
    obtain ⟨hn, hblank⟩ := hone.mp (by omega)
    obtain ⟨i, rfl⟩ : ∃ i, n = i + 1 := ⟨n - 1, by omega⟩
    have hi := hblank i (by omega) (Nat.lt_succ_self i)
    refine ⟨i, rfl, hi, ?_⟩
    rintro j rfl
    refine Bool.eq_false_iff.mpr fun hj => ?_
    have : 2 ≤ t.blankLinesBefore (j + 1 + 1) := htwo.mpr ⟨by omega, fun k hk hlt => by
      obtain rfl | rfl : k = j ∨ k = j + 1 := by omega
      · exact hj
      · exact hi⟩
    omega
  · rintro ⟨i, rfl, hi, habove⟩
    have hle : 1 ≤ t.blankLinesBefore (i + 1) := hone.mpr ⟨by omega, fun k hk hlt => by
      obtain rfl : k = i := by omega
      exact hi⟩
    have hlt : ¬ 2 ≤ t.blankLinesBefore (i + 1) := by
      intro h
      obtain ⟨hn, hblank⟩ := htwo.mp h
      obtain ⟨j, rfl⟩ : ∃ j, i = j + 1 := ⟨i - 1, by omega⟩
      have hj := hblank j (by omega) (by omega)
      rw [habove j rfl] at hj
      cases hj
    omega

theorem blankLinesAfter_eq_one_iff {n : Nat} : t.blankLinesAfter n = 1 ↔ t.OneBlankBelow n := by
  have hone := t.le_blankLinesAfter_iff (k := 1) (n := n)
  have htwo := t.le_blankLinesAfter_iff (k := 2) (n := n)
  simp only [Nat.forall_lt_succ_left, Nat.not_lt_zero, Nat.add_zero, false_implies, implies_true,
    and_true] at hone htwo
  rw [OneBlankBelow, ← Bool.not_eq_true, ← hone]
  constructor
  · intro h
    refine ⟨by omega, fun hsecond => ?_⟩
    have := htwo.mpr ⟨hone.mp (by omega), hsecond⟩
    omega
  · rintro ⟨hle, hsecond⟩
    have : ¬ 2 ≤ t.blankLinesAfter n := fun h => hsecond (htwo.mp h).2
    omega

end SourceText

namespace Separator

/-! ## The test -/

variable {t : SourceText} {s : Span}

theorem isSpaced_iff (hs : s.start < s.stop) :
    isSpaced t s = true ↔
      (t.OneBlankAbove (t.lineAt s.start) ∧ t.OneBlankBelow (t.lineAt (s.stop - 1))) ∨
      (t.lineAt (s.stop - 1) = t.lastLine ∧ t.OneBlankAbove (t.lineAt s.start)) ∨
      (t.lineAt s.start = 0 ∧ t.OneBlankBelow (t.lineAt (s.stop - 1))) := by
  have hlast : lastByte s = s.stop - 1 := by rw [lastByte, Nat.max_eq_left hs]
  rw [isSpaced, firstLine, lastLine, hlast, spacedBy]
  simp only [Bool.or_eq_true, Bool.and_eq_true, beq_iff_eq, t.blankLinesBefore_eq_one_iff,
    t.blankLinesAfter_eq_one_iff, or_assoc]
  refine or_congr_right (or_congr ?_ ?_)
  · constructor
    · rintro ⟨⟨hend, habove⟩, -⟩
      exact ⟨hend, habove⟩
    · rintro ⟨hend, habove⟩
      exact ⟨⟨hend, habove⟩, t.blankLinesAfter_of_lastLine_le (Nat.le_of_eq hend.symm)⟩
  · constructor
    · rintro ⟨⟨hstart, -⟩, hbelow⟩
      exact ⟨hstart, hbelow⟩
    · rintro ⟨hstart, hbelow⟩
      exact ⟨⟨hstart, by rw [hstart]; rfl⟩, hbelow⟩

/-! ## Reports -/

section

variable {testPrefixes : List String} {fs : List FuncDecl} {x : Finding}

theorem message_of_mem_visibilityFindings (h : x ∈ visibilityFindings testPrefixes fs) :
    x.message = mixedVisibility := by
  cases fs with
  | nil => cases h
  | cons first fs =>
    obtain ⟨f, -, rfl⟩ := List.mem_map.mp h
    rfl

theorem message_of_mem_testingFindings (h : x ∈ testingFindings testPrefixes fs) :
    x.message = mixedTesting := by
  rw [testingFindings] at h
  split at h
  case h_1 => cases h
  case h_2 =>
    split at h
    case h_1 => cases h
    case h_2 =>
      rcases List.mem_cons.mp h with rfl | h
      · rfl
      · rw [List.mem_singleton.mp h]

theorem opens_of_mem_receiverFindings (h : x ∈ receiverFindings testPrefixes fs) :
    Opens receiversOpening x.message := by
  simp only [receiverFindings] at h
  split at h
  case isTrue => cases h
  case isFalse =>
    obtain ⟨f, -, rfl⟩ := List.mem_map.mp h
    exact opens_append receiversOpening _

theorem opens_of_mem_adjacencyFindings {struct : String} (h : x ∈ adjacencyFindings struct fs) :
    Opens functionOpening x.message ∨ Opens methodOpening x.message := by
  obtain ⟨f, -, hf⟩ := List.mem_filterMap.mp h
  split at hf <;> split at hf <;> cases hf
  · exact .inl (opens_notConstructor _ _)
  · exact .inr (opens_foreignMethod _ _)

theorem opens_of_mem_functionFindings (h : x ∈ functionFindings testPrefixes fs) :
    ∃ opening ∈ kindOpenings, Opens opening x.message := by
  rcases List.mem_append.mp h with h | h
  · rcases List.mem_append.mp h with h | h
    · exact ⟨mixedVisibility, by simp [kindOpenings], message_of_mem_visibilityFindings h ▸ .refl _⟩
    · exact ⟨mixedTesting, by simp [kindOpenings], message_of_mem_testingFindings h ▸ .refl _⟩
  · exact ⟨receiversOpening, by simp [kindOpenings], opens_of_mem_receiverFindings h⟩

variable {bucket : List Decl}

theorem opens_of_mem_kindFindings (h : x ∈ kindFindings testPrefixes bucket) :
    ∃ opening ∈ kindOpenings, Opens opening x.message := by
  simp only [kindFindings] at h
  split at h
  case h_1 finding hrepeated =>
    rw [List.mem_singleton.mp h]
    refine ⟨singleStructOrInterface, .head _, ?_⟩
    rcases Option.or_eq_some_iff.mp hrepeated with hi | ⟨-, hs⟩
    · exact message_of_repeated? hi ▸ .refl _
    · exact message_of_repeated? hs ▸ .refl _
  case h_2 =>
    split at h
    · cases h
    split at h
    · exact opens_of_mem_functionFindings h
    split at h
    · obtain ⟨d, -, rfl⟩ := List.mem_map.mp h
      exact ⟨forbiddenOpening, .tail _ (.head _), opens_append forbiddenOpening _⟩
    · rcases List.mem_append.mp h with h | h
      · exact ⟨mixedTesting, by simp [kindOpenings], message_of_mem_testingFindings h ▸ .refl _⟩
      · cases hname : structName? bucket with
        | none => simp [hname] at h
        | some struct =>
          rw [hname, Option.elim_some] at h
          rcases opens_of_mem_adjacencyFindings h with h | h
          · exact ⟨functionOpening, by simp [kindOpenings], h⟩
          · exact ⟨methodOpening, by simp [kindOpenings], h⟩

theorem opens_of_mem_bucketFindings (h : x ∈ bucketFindings testPrefixes bucket) :
    ∃ opening ∈ bucketOpenings, Opens opening x.message := by
  rcases List.mem_append.mp h with h | h
  · obtain ⟨d, -, hd⟩ := List.mem_filterMap.mp h
    rw [classFinding?] at hd
    split at hd <;> cases hd
    · exact ⟨unknownDeclaration, .head _, .refl _⟩
    · exact ⟨multiSpecType, .tail _ (.head _), .refl _⟩
  · obtain ⟨opening, hopening, hopens⟩ := opens_of_mem_kindFindings h
    exact ⟨opening, List.mem_append_right _ hopening, hopens⟩

end

def otherOpenings : List String :=
  [trailing, beforePackage, beforeImports, multiline, overCode, emptySection,
    missingAfterPackage] ++ bucketOpenings

theorem message_ne_spacing {x : Finding} (h : ∃ opening ∈ otherOpenings, Opens opening x.message) :
    x.message ≠ spacing := by
  have hdiverge : ∀ opening ∈ otherOpenings, Diverge opening spacing := by decide +kernel
  obtain ⟨opening, hopening, hopens⟩ := h
  exact fun hmessage => (hdiverge opening hopening).1 (hmessage ▸ hopens)

/-- The rule speaks of blank lines at the separators that fail the test and nowhere else. -/
theorem mem_layoutFindings_and_spacing_iff {testPrefixes : List String} {l : Layout} {x : Finding} :
    x ∈ layoutFindings t testPrefixes l ∧ x.message = spacing ↔
      ∃ s ∈ l.separators, isSpaced t s = false ∧ x = ⟨s, spacing, none⟩ := by
  have habout (bad : Span → Bool) (message : String) (hmessage : message ∈ otherOpenings)
      (hx : x ∈ (l.separators.filter bad).map fun s => (⟨s, message, none⟩ : Finding)) :
      x.message ≠ spacing := by
    obtain ⟨s, -, rfl⟩ := List.mem_map.mp hx
    exact message_ne_spacing ⟨message, hmessage, .refl _⟩
  have hplaced {openings : List String} {fs : List Finding} (hsub : openings ⊆ otherOpenings)
      (hfs : Unrepeated openings fs) (hx : x ∈ fs) : x.message ≠ spacing := by
    obtain ⟨opening, hopening, hopens⟩ := hfs.opens x hx
    exact message_ne_spacing ⟨opening, hsub hopening, hopens⟩
  constructor
  · rintro ⟨h, hmessage⟩
    simp only [layoutFindings, List.mem_append] at h
    rcases h with ((((((h | h) | h) | h) | h) | h) | h) | h
    · exact absurd hmessage (hplaced (by simp [otherOpenings]) (unrepeated_trailingFindings l) h)
    · exact absurd hmessage (hplaced (by simp [otherOpenings]) (unrepeated_leadingFindings l) h)
    · exact absurd hmessage (habout _ multiline (by simp [otherOpenings]) h)
    · exact absurd hmessage (habout _ overCode (by simp [otherOpenings]) h)
    · obtain ⟨s, hs, rfl⟩ := List.mem_map.mp h
      obtain ⟨hmem, hbad⟩ := List.mem_filter.mp hs
      exact ⟨s, hmem, by simpa using hbad, rfl⟩
    · obtain ⟨p, -, hp⟩ := List.mem_filterMap.mp h
      rw [eq_of_emptySection?_eq_some hp] at hmessage
      exact absurd hmessage
        (message_ne_spacing ⟨emptySection, by simp [otherOpenings], .refl _⟩)
    · exact absurd hmessage (hplaced (by simp [otherOpenings]) (unrepeated_packageFindings t l) h)
    · obtain ⟨bucket, -, hbucket⟩ := List.mem_flatMap.mp h
      split at hbucket
      · cases hbucket
      · obtain ⟨opening, hopening, hopens⟩ := opens_of_mem_bucketFindings hbucket
        exact absurd hmessage
          (message_ne_spacing ⟨opening, List.mem_append_right _ hopening, hopens⟩)
  · rintro ⟨s, hs, hbad, rfl⟩
    refine ⟨?_, rfl⟩
    have hmem : (⟨s, spacing, none⟩ : Finding) ∈
        (l.separators.filter (!isSpaced t ·)).map fun s => (⟨s, spacing, none⟩ : Finding) :=
      List.mem_map_of_mem (List.mem_filter.mpr ⟨hs, by simp [hbad]⟩)
    simp only [layoutFindings, List.mem_append, hmem, or_true, true_or]

theorem eq_of_location_eq {file : String} {s' : Span} (hs : s.start < s.stop)
    (h : t.location file s' = t.location file s) : s' = s := by
  have hstart : s'.start = s.start := congrArg Location.offset h
  have hlength : s'.stop - s'.start = s.stop - s.start := congrArg Location.length h
  cases s
  cases s'
  simp only [Span.mk.injEq] at *
  omega

/-- A separator is not reported for its blank lines exactly if there is one above it and one below,
or it is on the last line with one above, or on the first line with one below. -/
theorem no_spacing_report_iff (t : SourceText) (file : String) (options : Options)
    (severity : Severity) (o : Outline) (s : Span) (hmem : s ∈ separators t options o.comments)
    (hs : s.start < s.stop) :
    (∀ v ∈ Rule.violations ⟨.separatorGroups options, severity⟩ t file o,
        ¬ (v.message = spacing ∧ v.location = t.location file s)) ↔
      (t.OneBlankAbove (t.lineAt s.start) ∧ t.OneBlankBelow (t.lineAt (s.stop - 1))) ∨
      (t.lineAt (s.stop - 1) = t.lastLine ∧ t.OneBlankAbove (t.lineAt s.start)) ∨
      (t.lineAt s.start = 0 ∧ t.OneBlankBelow (t.lineAt (s.stop - 1))) := by
  rw [← isSpaced_iff hs]
  constructor
  · intro hnone
    by_contra hbad
    obtain ⟨hfinding, -⟩ := (mem_layoutFindings_and_spacing_iff (l := Layout.of t options o)).mpr
      ⟨s, hmem, Bool.eq_false_iff.mpr hbad, rfl⟩
    exact hnone _ (List.mem_map_of_mem hfinding) ⟨rfl, rfl⟩
  · rintro hspaced v hv ⟨hmessage, hlocation⟩
    obtain ⟨x, hx, rfl⟩ := List.mem_map.mp hv
    obtain ⟨s', -, hbad, rfl⟩ := mem_layoutFindings_and_spacing_iff.mp ⟨hx, hmessage⟩
    obtain rfl : s' = s := eq_of_location_eq hs hlocation
    rw [hspaced] at hbad
    cases hbad

def boundedText : SourceText := { chars := "////\n\nvar x int\n\n////".toList }

def boundedOutline : Outline where
  comments := [⟨⟨0, 4⟩, "////"⟩, ⟨⟨17, 21⟩, "////"⟩]
  decls := [.gen ⟨6, 15⟩ .vars []]

theorem no_spacing_report_iff_bounded :
    separators boundedText { width := 4 } boundedOutline.comments = [⟨0, 4⟩, ⟨17, 21⟩] ∧
      boundedText.lineAt 20 = boundedText.lastLine ∧ boundedText.OneBlankAbove 4 ∧
      ∀ v ∈ Rule.violations ⟨.separatorGroups { width := 4 }, .error⟩ boundedText "demo.go"
          boundedOutline,
        ¬ (v.message = spacing ∧ v.location = boundedText.location "demo.go" ⟨17, 21⟩) := by
  have hseparators :
      separators boundedText { width := 4 } boundedOutline.comments = [⟨0, 4⟩, ⟨17, 21⟩] := by
    rw [separators_eq ⟨by decide, by decide⟩]
    decide +kernel
  have hmem : ⟨17, 21⟩ ∈ separators boundedText { width := 4 } boundedOutline.comments := by
    rw [hseparators]
    decide
  have hlast : boundedText.lineAt 20 = boundedText.lastLine := by decide +kernel
  have habove : boundedText.OneBlankAbove 4 := by
    refine ⟨3, rfl, by decide +kernel, ?_⟩
    intro j hj
    obtain rfl : j = 2 := by omega
    decide +kernel
  have hline : boundedText.lineAt 17 = 4 := by decide +kernel
  refine ⟨hseparators, hlast, habove, ?_⟩
  refine (no_spacing_report_iff boundedText "demo.go" { width := 4 } .error boundedOutline ⟨17, 21⟩
    hmem (by decide)).mpr ?_
  exact .inr (.inl ⟨hlast, hline ▸ habove⟩)

end Separator

end LayoutLint
