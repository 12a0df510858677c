import LayoutLint.Proofs.Separator.Clusters
import LayoutLint.Proofs.Unrepeated

/-! # Findings about separators and buckets are not repeated

Each check of the separators speaks of one matter and reports a separator at most once. A bucket
reports a declaration at most once for each matter, and no declaration is in two buckets.
-/

namespace LayoutLint.Separator

/-! ## Functions -/

section Functions

variable {testPrefixes : List String} {fs : List FuncDecl}

/-- How the message about several receivers begins. -/
def receiversOpening : String :=
  "Mixing methods with different receivers in the same group is not allowed: "

def functionOpening : String := "Function '"

def methodOpening : String := "Method with receiver '"

theorem unrepeated_visibilityFindings (hfs : (fs.map (·.span.start)).Nodup) :
    Unrepeated [mixedVisibility] (visibilityFindings testPrefixes fs) := by
  cases fs with
  | nil => exact .nil
  | cons first fs =>
    refine .of_starts (fun f hf => ?_) ?_
    · obtain ⟨decl, -, rfl⟩ := List.mem_map.mp hf
      exact ⟨mixedVisibility, List.mem_singleton_self _, Opens.refl _⟩
    · simp only [visibilityFindings, List.map_map]
      exact hfs.sublist ((List.dropWhile_sublist _).map _)

theorem traits_of_mem_firstOfTraits {seen : List Traits} {p : Traits × FuncDecl}
    (h : p ∈ firstOfTraits testPrefixes seen fs) : Traits.of testPrefixes p.2 = p.1 := by
  induction fs generalizing seen with
  | nil => cases h
  | cons f fs ih =>
    rw [firstOfTraits] at h
    split at h
    case isTrue => exact ih h
    case isFalse =>
      rcases List.mem_cons.mp h with rfl | h
      · rfl
      · exact ih h

/-- The two functions differ, as one is a test and the other is not. -/
theorem unrepeated_testingFindings (hfs : (fs.map (·.span.start)).Nodup) :
    Unrepeated [mixedTesting] (testingFindings testPrefixes fs) := by
  rw [testingFindings]
  split
  case h_1 => exact .nil
  case h_2 first f rest hfirst =>
    split
    case h_1 => exact .nil
    case h_2 traits offender hfind =>
      refine .of_starts (fun x hx => ?_) ?_
      · refine ⟨mixedTesting, List.mem_singleton_self _, ?_⟩
        simp only [List.mem_cons, List.not_mem_nil, or_false] at hx
        rcases hx with rfl | rfl <;> exact .refl _
      · have hmem : (first, f) ∈ firstOfTraits testPrefixes [] fs := hfirst ▸ List.mem_cons_self
        have hoffender : (traits, offender) ∈ firstOfTraits testPrefixes [] fs :=
          hfirst ▸ List.mem_cons_of_mem _ (List.mem_of_find?_eq_some hfind)
        have htesting : traits.testing ≠ first.testing := by
          simpa using List.find?_some hfind
        have hne : f.span.start ≠ offender.span.start := by
          intro heq
          have hsame : f = offender := List.inj_on_of_nodup_map hfs
            (mem_of_mem_firstOfTraits hmem) (mem_of_mem_firstOfTraits hoffender) heq
          have hf := traits_of_mem_firstOfTraits hmem
          have ho := traits_of_mem_firstOfTraits hoffender
          simp only at hf ho
          rw [← ho, ← hf, hsame] at htesting
          exact htesting rfl
        simpa using hne

theorem unrepeated_receiverFindings (hfs : (fs.map (·.span.start)).Nodup) :
    Unrepeated [receiversOpening] (receiverFindings testPrefixes fs) := by
  simp only [receiverFindings]
  split
  case isTrue => exact .nil
  case isFalse =>
    refine .of_starts (fun f hf => ?_) ?_
    · obtain ⟨decl, -, rfl⟩ := List.mem_map.mp hf
      exact ⟨receiversOpening, List.mem_singleton_self _, opens_append receiversOpening _⟩
    · rwa [List.map_map]

theorem unrepeated_functionFindings (hfs : (fs.map (·.span.start)).Nodup) :
    Unrepeated [mixedVisibility, mixedTesting, receiversOpening]
      (functionFindings testPrefixes fs) := by
  have hvisibility : Unrepeated [mixedVisibility] (visibilityFindings testPrefixes fs) :=
    unrepeated_visibilityFindings hfs
  have htesting : Unrepeated [mixedTesting] (testingFindings testPrefixes fs) :=
    unrepeated_testingFindings hfs
  have htraits := hvisibility.append htesting (by decide +kernel)
  exact htraits.append (unrepeated_receiverFindings hfs) (by decide +kernel)

theorem opens_notConstructor (function struct : String) :
    Opens functionOpening (notConstructor function struct) := by
  unfold notConstructor
  refine Opens.append_right (.append_right (.append_right (.append_right ?_ _) _) _) _
  exact opens_append functionOpening _

theorem opens_foreignMethod (receiver struct : String) :
    Opens methodOpening (foreignMethod receiver struct) := by
  unfold foreignMethod
  refine Opens.append_right (.append_right (.append_right ?_ _) _) _
  exact opens_append methodOpening _

theorem unrepeated_adjacencyFindings (struct : String) (hfs : (fs.map (·.span.start)).Nodup) :
    Unrepeated [functionOpening, methodOpening] (adjacencyFindings struct fs) := by
  refine .of_starts (fun finding hfinding => ?_) ?_
  · obtain ⟨f, -, hf⟩ := List.mem_filterMap.mp hfinding
    split at hf <;> split at hf <;> cases hf
    · exact ⟨functionOpening, .head _, opens_notConstructor _ _⟩
    · exact ⟨methodOpening, .tail _ (.head _), opens_foreignMethod _ _⟩
  · refine nodup_starts_filterMap (·.span.start) id hfs fun f _ finding hf => ?_
    split at hf <;> split at hf <;> cases hf <;> rfl

end Functions

/-! ## Buckets -/

section Buckets

variable {testPrefixes : List String} {bucket : List Decl}

def forbiddenOpening : String := "Forbidden declarations within the same group: "

/-- How the messages about what stands together in a bucket begin. -/
def kindOpenings : List String :=
  [singleStructOrInterface, forbiddenOpening, mixedVisibility, mixedTesting, receiversOpening,
    functionOpening, methodOpening]

def bucketOpenings : List String := [unknownDeclaration, multiSpecType] ++ kindOpenings

theorem nodup_starts_functions (hbucket : (bucket.map (·.span.start)).Nodup) :
    ((bucket.filterMap Decl.func?).map (·.span.start)).Nodup := by
  refine List.pairwise_map.mpr (List.pairwise_filterMap.mpr ?_)
  refine (List.pairwise_map.mp hbucket).imp fun {a b} hne f hf g hg => ?_
  cases a <;> cases hf
  cases b <;> cases hg
  exact hne

theorem unrepeated_classFindings (hbucket : (bucket.map (·.span.start)).Nodup) :
    Unrepeated [unknownDeclaration, multiSpecType] (bucket.filterMap classFinding?) := by
  refine .of_starts (fun finding hfinding => ?_) ?_
  · obtain ⟨d, -, hd⟩ := List.mem_filterMap.mp hfinding
    rw [classFinding?] at hd
    split at hd <;> cases hd
    · exact ⟨unknownDeclaration, .head _, Opens.refl _⟩
    · exact ⟨multiSpecType, .tail _ (.head _), Opens.refl _⟩
  · refine nodup_starts_filterMap (·.span.start) id hbucket fun d _ finding hd => ?_
    rw [classFinding?] at hd
    split at hd <;> cases hd <;> rfl

theorem message_of_repeated? {k : Kind} {finding : Finding}
    (h : repeated? bucket k = some finding) : finding.message = singleStructOrInterface := by
  rw [repeated?] at h
  split at h <;> cases h
  rfl

theorem unrepeated_kindFindings (hbucket : (bucket.map (·.span.start)).Nodup) :
    Unrepeated kindOpenings (kindFindings testPrefixes bucket) := by
  have hfs := nodup_starts_functions hbucket
  simp only [kindFindings]
  split
  case h_1 finding hrepeated =>
    have hmessage : finding.message = singleStructOrInterface := by
      rcases Option.or_eq_some_iff.mp hrepeated with hi | ⟨-, hs⟩
      · exact message_of_repeated? hi
      · exact message_of_repeated? hs
    refine .singleton ?_
    rw [hmessage]
    exact .head _
  case h_2 =>
    split
    · exact .nil
    split
    · exact (unrepeated_functionFindings hfs).mono (by simp [kindOpenings])
    split
    · refine .of_starts (fun finding hfinding => ?_) ?_
      · obtain ⟨d, -, rfl⟩ := List.mem_map.mp hfinding
        exact ⟨forbiddenOpening, .tail _ (.head _), opens_append forbiddenOpening _⟩
      · rw [List.map_map]
        exact hbucket.sublist (List.filter_sublist.map _)
    · have htesting : Unrepeated [mixedTesting] (testingFindings testPrefixes _) :=
        unrepeated_testingFindings hfs
      cases structName? bucket with
      | none =>
        rw [Option.elim_none, List.append_nil]
        exact htesting.mono (by simp [kindOpenings])
      | some struct =>
        have hboth := htesting.append (unrepeated_adjacencyFindings struct hfs) (by decide +kernel)
        exact hboth.mono (by simp [kindOpenings])

theorem unrepeated_bucketFindings (hbucket : (bucket.map (·.span.start)).Nodup) :
    Unrepeated bucketOpenings (bucketFindings testPrefixes bucket) :=
  (unrepeated_classFindings hbucket).append (unrepeated_kindFindings hbucket) (by decide +kernel)

end Buckets

/-! ## Separators -/

section Layouts

variable {t : SourceText} {testPrefixes : List String} {l : Layout}

variable (l) in
theorem unrepeated_trailingFindings : Unrepeated [trailing] (trailingFindings l) := by
  rw [trailingFindings]
  split
  case h_1 =>
    split
    · exact .singleton (.head _)
    · exact .nil
  case h_2 => exact .nil

variable (l) in
theorem unrepeated_leadingFindings :
    Unrepeated [beforePackage, beforeImports] (leadingFindings l) := by
  rw [leadingFindings]
  split
  case h_1 =>
    split
    · exact .singleton (.head _)
    · exact .nil
  case h_2 =>
    split
    · exact .singleton (.tail _ (.head _))
    · exact .nil
  case h_3 => exact .nil

variable (t l) in
theorem unrepeated_packageFindings :
    Unrepeated [missingAfterPackage] (packageFindings t l) := by
  simp only [packageFindings]
  split
  · exact .singleton (.head _)
  · exact .nil

theorem unrepeated_about (hl : l.separators.Pairwise Clear) (bad : Span → Bool) (message : String) :
    Unrepeated [message] ((l.separators.filter bad).map fun s => ⟨s, message, none⟩) := by
  refine .of_starts (fun finding hfinding => ?_) ?_
  · obtain ⟨s, -, rfl⟩ := List.mem_map.mp hfinding
    exact ⟨message, .head _, Opens.refl _⟩
  · rw [List.map_map]
    refine List.pairwise_map.mpr ((hl.sublist List.filter_sublist).imp fun hclear => ?_)
    exact Nat.ne_of_lt (Nat.lt_of_le_of_lt hclear.left hclear.between)

theorem map_fst_zip_sublist {α β : Type} (xs : List α) (ys : List β) :
    ((xs.zip ys).map Prod.fst).Sublist xs := by
  induction xs generalizing ys with
  | nil => exact .slnil
  | cons x xs ih =>
    cases ys with
    | nil => exact List.nil_sublist _
    | cons y ys => exact (ih ys).cons_cons x

/-- A section starts where a separator ends, and no two end at one place. -/
theorem unrepeated_emptySectionFindings (hl : l.separators.Pairwise Clear) :
    Unrepeated [emptySection] (emptySectionFindings l) := by
  have hstops : (l.separators.map Span.stop).Nodup := by
    refine List.pairwise_map.mpr (hl.imp fun hclear => ?_)
    exact Nat.ne_of_lt (Nat.lt_of_lt_of_le hclear.between hclear.right)
  have hpairs := hstops.sublist ((map_fst_zip_sublist l.separators l.separators.tail).map Span.stop)
  rw [List.map_map] at hpairs
  refine .of_starts (fun finding hfinding => ?_) ?_
  · obtain ⟨p, -, hp⟩ := List.mem_filterMap.mp hfinding
    rw [eq_of_emptySection?_eq_some hp]
    exact ⟨emptySection, .head _, Opens.refl _⟩
  · refine nodup_starts_filterMap _ id hpairs fun p _ finding hp => ?_
    rw [eq_of_emptySection?_eq_some hp]
    rfl

theorem pairwise_partition (separators : List Span) (decls : List Decl) :
    (partition separators decls).Pairwise fun b b' =>
      ∀ d ∈ b, ∀ d' ∈ b', d.span.start ≠ d'.span.start := by
  refine List.pairwise_map.mpr (List.nodup_range.imp fun {i j} hne d hd d' hd' heq => hne ?_)
  have hi := (List.mem_filter.mp hd).2
  have hj := (List.mem_filter.mp hd').2
  rw [decide_eq_true_eq] at hi hj
  rw [← hi, ← hj, heq]

theorem unrepeated_partitionFindings (hdecls : (l.decls.map (·.span.start)).Nodup) :
    Unrepeated bucketOpenings ((partition l.separators l.decls).flatMap fun bucket =>
      if bucket.isEmpty then [] else bucketFindings testPrefixes bucket) := by
  have hnonempty : ∀ bucket : List Decl,
      (if bucket.isEmpty then [] else bucketFindings testPrefixes bucket) =
        bucketFindings testPrefixes bucket := by
    intro bucket
    cases bucket with
    | nil => rfl
    | cons d ds => rfl
  simp only [hnonempty]
  refine .flatMap (fun bucket hbucket => unrepeated_bucketFindings ?_) ?_
  · obtain ⟨i, -, rfl⟩ := List.mem_map.mp hbucket
    exact hdecls.sublist (List.filter_sublist.map _)
  · refine (pairwise_partition l.separators l.decls).imp fun hapart f hf f' hf' => ?_
    obtain ⟨d, hd, e, -, hspan⟩ := covers_of_mem_bucketFindings hf
    obtain ⟨d', hd', e', -, hspan'⟩ := covers_of_mem_bucketFindings hf'
    rw [hspan, hspan']
    exact hapart d hd d' hd'

def layoutOpenings : List String :=
  [trailing, beforePackage, beforeImports, multiline, overCode, spacing, emptySection,
    missingAfterPackage] ++ bucketOpenings

theorem unrepeated_layoutFindings (hl : l.separators.Pairwise Clear)
    (hdecls : (l.decls.map (·.span.start)).Nodup) :
    Unrepeated layoutOpenings (layoutFindings t testPrefixes l) := by
  have hplaced := (unrepeated_trailingFindings l).append (unrepeated_leadingFindings l)
    (by decide +kernel)
  have hmultiline := hplaced.append (unrepeated_about hl (isMultiline t) multiline)
    (by decide +kernel)
  have hover := hmultiline.append
    (unrepeated_about hl (fun s => l.decls.any fun d => shareLine t s d.span) overCode)
    (by decide +kernel)
  have hspacing := hover.append (unrepeated_about hl (!isSpaced t ·) spacing) (by decide +kernel)
  have hsections := hspacing.append (unrepeated_emptySectionFindings hl) (by decide +kernel)
  have hpackage := hsections.append (unrepeated_packageFindings t l) (by decide +kernel)
  exact hpackage.append (unrepeated_partitionFindings hdecls) (by decide +kernel)

end Layouts

end LayoutLint.Separator
