import LayoutLint.Proofs.Guarded.Rules
import LayoutLint.Proofs.Separator.EmptySections
import LayoutLint.Proofs.Separator.Unrepeated
import LayoutLint.Rule

/-! # The first and the last separator

The imports and the package clause are compared with the first separator only, and the declarations
with the last one. This finds every misplaced separator: of spans that have a byte and share none,
the last one to start is also the last one to end. Only a comment without a byte can start at the
last word, and there the run stops.
-/

namespace LayoutLint

/-! ## First and last elements -/

section

variable {α : Type} {xs : List α} {P : α → Prop}

theorem exists_mem_iff_head? (h : xs.Pairwise fun a b => P b → P a) :
    (∃ x ∈ xs, P x) ↔ ∃ x ∈ xs.head?, P x := by
  constructor
  · rintro ⟨x, hx, hP⟩
    obtain ⟨first, rest, rfl⟩ := List.exists_cons_of_ne_nil (List.ne_nil_of_mem hx)
    rcases List.mem_cons.mp hx with rfl | hx
    · exact ⟨x, rfl, hP⟩
    · exact ⟨first, rfl, (List.pairwise_cons.mp h).1 x hx hP⟩
  · rintro ⟨x, hx, hP⟩
    exact ⟨x, List.mem_of_head? hx, hP⟩

theorem exists_mem_iff_getLast? (h : xs.Pairwise fun a b => P a → P b) :
    (∃ x ∈ xs, P x) ↔ ∃ x ∈ xs.getLast?, P x := by
  rw [← List.head?_reverse, ← exists_mem_iff_head? (List.pairwise_reverse.mpr h)]
  simp only [List.mem_reverse]

theorem forall_mem_iff_getLast? (h : xs.Pairwise fun a b => P b → P a) :
    (∀ x ∈ xs, P x) ↔ ∀ x ∈ xs.getLast?, P x := by
  have hnot : xs.Pairwise fun a b => ¬ P a → ¬ P b := h.imp mt
  simpa only [not_exists, not_and, not_not] using not_congr (exists_mem_iff_getLast? hnot)

theorem mergeSort_eq_nil_iff {le : α → α → Bool} : xs.mergeSort le = [] ↔ xs = [] := by
  rw [← List.length_eq_zero_iff, List.length_mergeSort, List.length_eq_zero_iff]

end

/-! ## Spans that share no byte -/

theorem pairwise_before_mergeSort {α : Type} (span : α → Span) {xs : List α}
    (hne : ∀ x ∈ xs, (span x).start < (span x).stop)
    (hdisjoint : xs.Pairwise fun a b => (span a).Disjoint (span b)) :
    (xs.mergeSort fun a b => (span a).le (span b)).Pairwise fun a b =>
      (span a).Before (span b) := by
  have hperm := List.mergeSort_perm xs fun a b => (span a).le (span b)
  have hsorted := (hperm.pairwise_iff fun hab => Span.Disjoint.symm hab).mpr hdisjoint
  refine ((pairwise_mergeSort_span span xs).and hsorted).imp_of_mem fun {a b} ha hb hab => ?_
  have ha := hne a (hperm.mem_iff.mp ha)
  have hb := hne b (hperm.mem_iff.mp hb)
  have hdisjoint := Span.disjoint_iff.mp hab.2
  refine Span.before_of_le ha hb hab.1 ?_
  unfold Span.Precedes
  omega

/-! ## Findings with a message -/

theorem Unrepeated.countP_message_eq_zero {openings others : List String} {fs : List Finding}
    {message : String} (h : Unrepeated openings fs) (hsub : openings ⊆ others)
    (hothers : ∀ s ∈ others, ¬ Opens s message) : fs.countP (·.message = message) = 0 := by
  refine List.countP_eq_zero.mpr fun f hf => ?_
  obtain ⟨s, hs, hopens⟩ := h.opens f hf
  rw [decide_eq_true_eq]
  rintro rfl
  exact hothers s (hsub hs) hopens

namespace Separator

variable {t : SourceText} {testPrefixes : List String} {l : Layout}

/-- How the messages begin that are not about the place of the first or the last separator. -/
def innerOpenings : List String :=
  [multiline, overCode, spacing, emptySection, missingAfterPackage] ++ bucketOpenings

theorem countP_message_layoutFindings (hseparators : l.separators.Pairwise Clear)
    (hdecls : (l.decls.map (·.span.start)).Nodup) {message : String}
    (hmessage : ∀ s ∈ innerOpenings, ¬ Opens s message) :
    (layoutFindings t testPrefixes l).countP (·.message = message) =
      (trailingFindings l).countP (·.message = message) +
        (leadingFindings l).countP (·.message = message) := by
  have habout : ∀ bad text, [text] ⊆ innerOpenings →
      ((l.separators.filter bad).map fun s => (⟨s, text, none⟩ : Finding)).countP
        (·.message = message) = 0 := fun bad text hsub =>
    (unrepeated_about hseparators bad text).countP_message_eq_zero hsub hmessage
  have hempty := (unrepeated_emptySectionFindings hseparators).countP_message_eq_zero
    (by simp [innerOpenings]) hmessage
  have hpackage := (unrepeated_packageFindings t l).countP_message_eq_zero
    (by simp [innerOpenings]) hmessage
  simp only [layoutFindings, List.countP_append]
  rw [habout _ multiline (by simp [innerOpenings]), habout _ overCode (by simp [innerOpenings]),
    habout _ spacing (by simp [innerOpenings]), hempty, hpackage,
    (unrepeated_partitionFindings hdecls).countP_message_eq_zero
      (List.subset_append_right _ _) hmessage]
  rfl

/-! ## Placement -/

/-- A separator after all declarations is found at the last separator. -/
theorem countP_trailingFindings (hseparators : l.separators.Pairwise Clear)
    (hdecls : l.decls.Pairwise fun d e => d.span.stop ≤ e.span.stop) :
    (trailingFindings l).countP (·.message = trailing) =
      if l.decls ≠ [] ∧ ∃ s ∈ l.separators, ∀ d ∈ l.decls, d.span.stop < s.start then 1 else 0 := by
  have hlast : (∃ s ∈ l.separators, ∀ d ∈ l.decls, d.span.stop < s.start) ↔
      ∃ s ∈ l.separators.getLast?, ∀ d ∈ l.decls.getLast?, d.span.stop < s.start := by
    rw [exists_mem_iff_getLast?]
    · refine exists_congr fun s => and_congr_right fun _ => forall_mem_iff_getLast? ?_
      exact hdecls.imp fun hde hlt => Nat.lt_of_le_of_lt hde hlt
    · refine hseparators.imp fun hclear hall d hd => Nat.lt_trans (hall d hd) ?_
      exact Nat.lt_of_le_of_lt hclear.left hclear.between
  simp only [hlast, trailingFindings]
  cases hs : l.separators.getLast? with
  | none => simp
  | some s =>
    cases hd : l.decls.getLast? with
    | none => simp [List.getLast?_eq_none_iff.mp hd]
    | some d =>
      have hne : l.decls ≠ [] := List.ne_nil_of_mem (List.mem_of_getLast? hd)
      by_cases hlt : d.span.stop < s.start
      · simp [hne, hlt]
      · simp [hlt]

theorem countP_leadingFindings_beforeImports (hseparators : l.separators.Pairwise Clear)
    (himports : l.imports.Pairwise fun s s' => s.stop ≤ s'.stop) :
    (leadingFindings l).countP (·.message = beforeImports) =
      if ∃ s ∈ l.separators, ∃ i ∈ l.imports, s.start < i.stop then 1 else 0 := by
  have hfirst : (∃ s ∈ l.separators, ∃ i ∈ l.imports, s.start < i.stop) ↔
      ∃ s ∈ l.separators.head?, ∃ i ∈ l.imports.getLast?, s.start < i.stop := by
    rw [exists_mem_iff_head?]
    · refine exists_congr fun s => and_congr_right fun _ => exists_mem_iff_getLast? ?_
      exact himports.imp fun hle hlt => Nat.lt_of_lt_of_le hlt hle
    · refine hseparators.imp fun hclear => ?_
      rintro ⟨i, hi, hlt⟩
      exact ⟨i, hi, Nat.lt_trans (Nat.lt_of_le_of_lt hclear.left hclear.between) hlt⟩
  have hmessage : beforePackage ≠ beforeImports := by decide
  simp only [hfirst, leadingFindings]
  cases l.separators.head? with
  | none => simp
  | some s =>
    cases l.imports.getLast? with
    | none => by_cases hle : s.stop ≤ l.package.start <;> simp [hle, hmessage]
    | some i => by_cases hlt : s.start < i.stop <;> simp [hlt]

theorem countP_leadingFindings_beforePackage (hseparators : l.separators.Pairwise Clear) :
    (leadingFindings l).countP (·.message = beforePackage) =
      if l.imports = [] ∧ ∃ s ∈ l.separators, s.stop ≤ l.package.start then 1 else 0 := by
  have hfirst : (∃ s ∈ l.separators, s.stop ≤ l.package.start) ↔
      ∃ s ∈ l.separators.head?, s.stop ≤ l.package.start := by
    refine exists_mem_iff_head? (hseparators.imp fun hclear hle => ?_)
    exact (hclear.between.le.trans hclear.right).trans hle
  have hmessage : beforeImports ≠ beforePackage := by decide
  simp only [hfirst, leadingFindings]
  cases l.separators.head? with
  | none => simp
  | some s =>
    cases hi : l.imports.getLast? with
    | none =>
      by_cases hle : s.stop ≤ l.package.start <;> simp [hle, List.getLast?_eq_none_iff.mp hi]
    | some i =>
      have hne : l.imports ≠ [] := List.ne_nil_of_mem (List.mem_of_getLast? hi)
      by_cases hlt : s.start < i.stop <;> simp [hlt, hne, hmessage]

/-! ## Outlines -/

/-- Declarations have a byte each and share none, and so do imports; comments stand in the order
of the text. -/
structure Spread (o : Outline) : Prop where
  decls_nonempty : ∀ d ∈ o.decls, d.span.start < d.span.stop
  decls_disjoint : o.decls.Pairwise fun d e => d.span.Disjoint e.span
  imports_nonempty : ∀ i ∈ o.imports, i.start < i.stop
  imports_disjoint : o.imports.Pairwise Span.Disjoint
  comments : InOrder o.comments

namespace Spread

variable {options : Options} {o : Outline}

theorem pairwise_decls (h : Spread o) :
    (Layout.of t options o).decls.Pairwise fun d e => d.span.Before e.span :=
  pairwise_before_mergeSort Decl.span h.decls_nonempty h.decls_disjoint

theorem pairwise_imports (h : Spread o) : (Layout.of t options o).imports.Pairwise Span.Before :=
  pairwise_before_mergeSort id h.imports_nonempty h.imports_disjoint

theorem nodup_starts (h : Spread o) :
    ((Layout.of t options o).decls.map (·.span.start)).Nodup :=
  List.pairwise_map.mpr (h.pairwise_decls.imp fun hbefore => Nat.ne_of_lt hbefore.1)

theorem pairwise_decls_stop (h : Spread o) :
    (Layout.of t options o).decls.Pairwise fun d e => d.span.stop ≤ e.span.stop := by
  refine pairwise_stop_le Decl.span (fun d hd => ?_) (h.pairwise_decls.imp And.right)
  exact (h.decls_nonempty d (List.mem_mergeSort.mp hd)).le

theorem pairwise_imports_stop (h : Spread o) :
    (Layout.of t options o).imports.Pairwise fun i j => i.stop ≤ j.stop := by
  refine pairwise_stop_le id (fun i hi => ?_) (h.pairwise_imports.imp And.right)
  exact (h.imports_nonempty i (List.mem_mergeSort.mp hi)).le

theorem countP_message_findings (h : Spread o) {message : String}
    (hmessage : ∀ s ∈ innerOpenings, ¬ Opens s message) :
    (findings t options o).countP (·.message = message) =
      (trailingFindings (Layout.of t options o)).countP (·.message = message) +
        (leadingFindings (Layout.of t options o)).countP (·.message = message) :=
  countP_message_layoutFindings (pairwise_separators h.comments options) h.nodup_starts hmessage

theorem countP_misplaced_findings (h : Spread o) :
    (findings t options o).countP (·.message = trailing) =
      (if o.decls ≠ [] ∧
        ∃ s ∈ separators t options o.comments, ∀ d ∈ o.decls, d.span.stop < s.start
      then 1 else 0) ∧
    (findings t options o).countP (·.message = beforeImports) =
      (if ∃ s ∈ separators t options o.comments, ∃ i ∈ o.imports, s.start < i.stop
      then 1 else 0) ∧
    (findings t options o).countP (·.message = beforePackage) =
      (if o.imports = [] ∧ ∃ s ∈ separators t options o.comments, s.stop ≤ o.package.start
      then 1 else 0) := by
  have hseparators : (Layout.of t options o).separators.Pairwise Clear :=
    pairwise_separators h.comments options
  have htrailing := countP_trailingFindings hseparators h.pairwise_decls_stop
  have himports := countP_leadingFindings_beforeImports hseparators h.pairwise_imports_stop
  have hpackage := countP_leadingFindings_beforePackage hseparators
  simp only [Layout.of, List.mem_mergeSort, ne_eq, mergeSort_eq_nil_iff]
    at htrailing himports hpackage
  have hfirst := unrepeated_leadingFindings (Layout.of t options o)
  have hlast := unrepeated_trailingFindings (Layout.of t options o)
  refine ⟨?_, ?_, ?_⟩
  · rw [h.countP_message_findings (by decide +kernel),
      hfirst.countP_message_eq_zero (List.Subset.refl _) (by decide +kernel)]
    exact htrailing
  · rw [h.countP_message_findings (by decide +kernel),
      hlast.countP_message_eq_zero (List.Subset.refl _) (by decide +kernel), Nat.zero_add]
    exact himports
  · rw [h.countP_message_findings (by decide +kernel),
      hlast.countP_message_eq_zero (List.Subset.refl _) (by decide +kernel), Nat.zero_add]
    exact hpackage

theorem hasRoom (h : Spread o) (hwords : ∀ x ∈ o.offsets, x < Word.count)
    (hcomments : ∀ c ∈ o.comments, c.span.start + 1 < Word.count) :
    o.HasRoom (.separatorGroups options) := by
  refine ⟨hcomments, fun d hd => ?_⟩
  have hmem : d.span.stop ∈ o.offsets := by
    have hdecl : d.span.stop ∈ o.decls.flatMap Decl.offsets :=
      List.mem_flatMap.mpr ⟨d, hd, Decl.offsets_span_subset d (by simp [Span.offsets])⟩
    simp only [Outline.offsets, List.mem_append, hdecl, true_or, or_true]
  exact Nat.lt_of_le_of_lt (h.decls_nonempty d hd) (hwords _ hmem)

end Spread

/-- The run reports a separator at the end of the file, before the imports or before the package
clause exactly where some separator stands there, and then once. -/
theorem countP_misplaced (t : SourceText) (file : String) (options : Options)
    (severity : Severity) (o : Outline) (h : Spread o)
    (hm : Guarded.InMemory t (.separatorGroups options) o)
    (hwords : ∀ x ∈ o.offsets, x < Word.count)
    (hcomments : ∀ c ∈ o.comments, c.span.start + 1 < Word.count) :
    ∃ vs, Guarded.violations t ⟨.separatorGroups options, severity⟩ file o = .ok vs ∧
      vs.countP (·.message = trailing) =
        (if o.decls ≠ [] ∧
          ∃ s ∈ separators t options o.comments, ∀ d ∈ o.decls, d.span.stop < s.start
        then 1 else 0) ∧
      vs.countP (·.message = beforeImports) =
        (if ∃ s ∈ separators t options o.comments, ∃ i ∈ o.imports, s.start < i.stop
        then 1 else 0) ∧
      vs.countP (·.message = beforePackage) =
        (if o.imports = [] ∧ ∃ s ∈ separators t options o.comments, s.stop ≤ o.package.start
        then 1 else 0) := by
  refine ⟨_, Guarded.violations_ok hm (h.hasRoom hwords hcomments) file, ?_⟩
  have hviolations : ∀ message,
      (Rule.violations ⟨.separatorGroups options, severity⟩ t file o).countP
        (·.message = message) = (findings t options o).countP (·.message = message) := by
    intro message
    exact List.countP_map
  simp only [hviolations]
  exact h.countP_misplaced_findings

def scatteredText : SourceText :=
  { chars := "package a\n\nimport \"b\"\n\n////\n\nimport \"c\"\n\nvar x int\n\n////\n".toList }

def scatteredOutline : Outline where
  package := ⟨0, 9⟩
  imports := [⟨29, 39⟩, ⟨11, 21⟩]
  comments := [⟨⟨23, 27⟩, "////"⟩, ⟨⟨52, 56⟩, "////"⟩]
  decls := [.gen ⟨41, 50⟩ .vars []]

theorem spread_scattered : Spread scatteredOutline where
  decls_nonempty := by decide
  decls_disjoint := by decide
  imports_nonempty := by decide
  imports_disjoint := by decide
  comments := ⟨by decide, by decide⟩

theorem countP_misplaced_scattered :
    Spread scatteredOutline ∧
      ∃ vs, Guarded.violations scatteredText ⟨.separatorGroups { width := 4 }, .error⟩ "demo.go"
          scatteredOutline = .ok vs ∧
        vs.countP (·.message = trailing) = 1 ∧ vs.countP (·.message = beforeImports) = 1 ∧
        vs.countP (·.message = beforePackage) = 0 := by
  have hseparators : separators scatteredText { width := 4 } scatteredOutline.comments =
      [⟨23, 27⟩, ⟨52, 56⟩] := by
    rw [separators_eq spread_scattered.comments]
    decide +kernel
  obtain ⟨vs, hvs, htrailing, himports, hpackage⟩ := countP_misplaced scatteredText "demo.go"
    { width := 4 } .error scatteredOutline spread_scattered
    ⟨by decide +kernel, by decide, by decide, by rintro options ⟨⟩; decide⟩ (by decide) (by decide)
  rw [hseparators] at htrailing himports hpackage
  exact ⟨spread_scattered, vs, hvs, htrailing.trans (by decide), himports.trans (by decide),
    hpackage.trans (by decide)⟩

/-- A separator without a byte at the last word, after a declaration. -/
def lastWordSeparator : Outline where
  comments := [⟨⟨Word.count - 1, Word.count - 1⟩, "/"⟩]
  decls := [.unrecognized ⟨0, 1⟩ "?"]

/-- The separator at the last word stands after the declaration, but the run stops before a
report. -/
theorem not_forall_countP_misplaced :
    ¬ ∀ (t : SourceText) (file : String) (options : Options) (severity : Severity) (o : Outline),
      Spread o → Guarded.InMemory t (.separatorGroups options) o →
      (∀ x ∈ o.offsets, x < Word.count) →
      ∃ vs, Guarded.violations t ⟨.separatorGroups options, severity⟩ file o = .ok vs ∧
        vs.countP (·.message = trailing) =
          (if o.decls ≠ [] ∧
            ∃ s ∈ separators t options o.comments, ∀ d ∈ o.decls, d.span.stop < s.start
          then 1 else 0) := by
  intro h
  obtain ⟨vs, hvs, -⟩ := h (SourceText.ofString "") "a.go" { width := 1 } .error lastWordSeparator
    ⟨by decide, by decide, by decide, by decide, ⟨by decide, by decide⟩⟩
    ⟨by decide, by decide, by decide, by rintro options ⟨⟩; decide⟩ (by decide)
  have hfault : Guarded.violations (SourceText.ofString "")
      ⟨.separatorGroups { width := 1 }, .error⟩ "a.go" lastWordSeparator = .error .overflow := by
    decide +kernel
  rw [hfault] at hvs
  cases hvs

end Separator

end LayoutLint
