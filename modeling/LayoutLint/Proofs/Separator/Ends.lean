import LayoutLint.Proofs.Outline.Spans
import LayoutLint.Rules.Separator.Check

/-! # Where separators and findings begin and end

A separator begins where a comment begins and ends where one ends. A finding about a bucket
begins where one of its declarations begins and ends where one ends.
-/

namespace LayoutLint.Separator

/-! ## Separators -/

section

variable {t : SourceText} {P Q : Nat → Prop}

/-- An open group keeps its start and takes its end from the comments it accepts. -/
theorem ends_of_mem_groupsFrom {g : Group} {cs : List Comment} (hg : P g.span.start ∧ Q g.span.stop)
    (hcs : ∀ c ∈ cs, P c.span.start ∧ Q c.span.stop) :
    ∀ g' ∈ groupsFrom t g cs, P g'.span.start ∧ Q g'.span.stop := by
  induction cs generalizing g with
  | nil =>
    intro g' hg'
    rw [groupsFrom, List.mem_singleton] at hg'
    rwa [hg']
  | cons c cs ih =>
    obtain ⟨hc, hcs⟩ := List.forall_mem_cons.mp hcs
    rw [groupsFrom]
    split
    case isTrue => exact ih ⟨hg.1, hc.2⟩ hcs
    case isFalse => exact List.forall_mem_cons.mpr ⟨hg, ih hc hcs⟩

theorem ends_of_mem_separators {options : Options} {cs : List Comment}
    (hcs : ∀ c ∈ cs, P c.span.start ∧ Q c.span.stop) :
    ∀ s ∈ separators t options cs, P s.start ∧ Q s.stop := by
  intro s hs
  rw [separators, List.mem_mergeSort, List.mem_map] at hs
  obtain ⟨g, hg, rfl⟩ := hs
  have hmem := (List.mem_filter.mp hg).1
  cases cs with
  | nil => cases hmem
  | cons c cs =>
    obtain ⟨hc, hcs⟩ := List.forall_mem_cons.mp hcs
    exact ends_of_mem_groupsFrom hc hcs g hmem

end

/-! ## Findings about functions -/

section

variable {testPrefixes : List String} {fs : List FuncDecl} {finding : Finding}

theorem mem_of_mem_firstOfTraits {seen : List Traits} {p : Traits × FuncDecl}
    (h : p ∈ firstOfTraits testPrefixes seen fs) : p.2 ∈ fs := by
  induction fs generalizing seen with
  | nil => cases h
  | cons f fs ih =>
    rw [firstOfTraits] at h
    split at h
    case isTrue => exact List.mem_cons_of_mem f (ih h)
    case isFalse =>
      rcases List.mem_cons.mp h with rfl | h
      · exact List.mem_cons_self
      · exact List.mem_cons_of_mem f (ih h)

theorem span_of_mem_visibilityFindings (h : finding ∈ visibilityFindings testPrefixes fs) :
    ∃ f ∈ fs, finding.span = f.span := by
  cases fs with
  | nil => cases h
  | cons first fs =>
    obtain ⟨f, hf, rfl⟩ := List.mem_map.mp h
    exact ⟨f, (List.dropWhile_sublist _).subset hf, rfl⟩

theorem span_of_mem_testingFindings (h : finding ∈ testingFindings testPrefixes fs) :
    ∃ f ∈ fs, finding.span = f.span := by
  rw [testingFindings] at h
  split at h
  case h_1 => cases h
  case h_2 first f rest hfirst =>
    have hmem : ∀ p ∈ (first, f) :: rest, p.2 ∈ fs :=
      fun p hp => mem_of_mem_firstOfTraits (hfirst ▸ hp)
    split at h
    case h_1 => cases h
    case h_2 traits offender hfind =>
      simp only [List.mem_cons, List.not_mem_nil, or_false] at h
      rcases h with rfl | rfl
      · exact ⟨f, hmem _ List.mem_cons_self, rfl⟩
      · exact ⟨offender, hmem _ (List.mem_cons_of_mem _ (List.mem_of_find?_eq_some hfind)), rfl⟩

theorem span_of_mem_receiverFindings (h : finding ∈ receiverFindings testPrefixes fs) :
    ∃ f ∈ fs, finding.span = f.span := by
  simp only [receiverFindings] at h
  split at h
  case isTrue => cases h
  case isFalse =>
    obtain ⟨f, hf, rfl⟩ := List.mem_map.mp h
    exact ⟨f, hf, rfl⟩

theorem span_of_mem_functionFindings (h : finding ∈ functionFindings testPrefixes fs) :
    ∃ f ∈ fs, finding.span = f.span := by
  simp only [functionFindings, List.mem_append] at h
  rcases h with (h | h) | h
  · exact span_of_mem_visibilityFindings h
  · exact span_of_mem_testingFindings h
  · exact span_of_mem_receiverFindings h

theorem span_of_mem_adjacencyFindings {struct : String}
    (h : finding ∈ adjacencyFindings struct fs) : ∃ f ∈ fs, finding.span = f.span := by
  obtain ⟨f, hf, hfinding⟩ := List.mem_filterMap.mp h
  refine ⟨f, hf, ?_⟩
  split at hfinding <;> split at hfinding <;> cases hfinding <;> rfl

end

/-! ## Findings about buckets -/

section

variable {testPrefixes : List String} {bucket : List Decl} {finding : Finding}

/-- The finding begins and ends with declarations of the bucket. -/
def Covers (bucket : List Decl) (finding : Finding) : Prop :=
  ∃ a ∈ bucket, ∃ b ∈ bucket, finding.span = ⟨a.span.start, b.span.stop⟩

theorem covers_of_span_eq {d : Decl} (hd : d ∈ bucket) (h : finding.span = d.span) :
    Covers bucket finding := ⟨d, hd, d, hd, h⟩

theorem covers_of_functions (h : ∃ f ∈ bucket.filterMap Decl.func?, finding.span = f.span) :
    Covers bucket finding := by
  obtain ⟨f, hf, hspan⟩ := h
  exact covers_of_span_eq (Decl.mem_filterMap_func?_iff.mp hf) hspan

theorem covers_of_classFinding? {d : Decl} (hd : d ∈ bucket) (h : classFinding? d = some finding) :
    Covers bucket finding := by
  refine covers_of_span_eq hd ?_
  rw [classFinding?] at h
  split at h <;> cases h <;> rfl

theorem covers_of_repeated? {k : Kind} (h : repeated? bucket k = some finding) :
    Covers bucket finding := by
  rw [repeated?] at h
  split at h
  case h_1 first second rest hkind =>
    cases h
    have hmem : ∀ d ∈ first :: second :: rest, d ∈ bucket :=
      fun d hd => (List.mem_filter.mp (hkind ▸ hd)).1
    refine ⟨first, hmem _ List.mem_cons_self, _, hmem _ ?_, rfl⟩
    exact List.mem_cons_of_mem first (List.getLast_mem _)
  case h_2 => cases h

theorem covers_of_mem_kindFindings (h : finding ∈ kindFindings testPrefixes bucket) :
    Covers bucket finding := by
  simp only [kindFindings] at h
  split at h
  case h_1 f hrepeated =>
    cases List.mem_singleton.mp h
    rcases Option.or_eq_some_iff.mp hrepeated with hi | ⟨-, hs⟩
    · exact covers_of_repeated? hi
    · exact covers_of_repeated? hs
  case h_2 =>
    split at h
    · cases h
    split at h
    · exact covers_of_functions (span_of_mem_functionFindings h)
    split at h
    · obtain ⟨d, hd, rfl⟩ := List.mem_map.mp h
      exact covers_of_span_eq (List.mem_filter.mp hd).1 rfl
    · rcases List.mem_append.mp h with h | h
      · exact covers_of_functions (span_of_mem_testingFindings h)
      · cases hs : structName? bucket with
        | none => simp [hs] at h
        | some struct =>
          rw [hs] at h
          exact covers_of_functions (span_of_mem_adjacencyFindings h)

theorem covers_of_mem_bucketFindings (h : finding ∈ bucketFindings testPrefixes bucket) :
    Covers bucket finding := by
  rcases List.mem_append.mp h with h | h
  · obtain ⟨d, hd, hfinding⟩ := List.mem_filterMap.mp h
    exact covers_of_classFinding? hd hfinding
  · exact covers_of_mem_kindFindings h

end

end LayoutLint.Separator
