import LayoutLint.Proofs.Outline.Spans
import LayoutLint.Proofs.Separator.Functions
import Mathlib.Tactic.Tauto

/-! # What a bucket may hold

The checks of a bucket run in a cascade: the first that applies to the kinds in the bucket settles
it. What passes them all is one logical entity: declarations of one plain kind, functions that are
alike, or a structure with its constructors and methods.
-/

namespace LayoutLint.Separator

variable {testPrefixes : List String} {bucket : List Decl} {d : Decl} {k : Kind}

/-! ## Entities -/

/-- Declarations of one kind other than structures and functions, with one interface at most. -/
def HoldsOneKind (bucket : List Decl) : Prop :=
  ∃ k ∈ [Kind.imports, .consts, .vars, .type, .interface],
    (∀ d ∈ bucket, classify d = .ofKind k) ∧
    bucket.countP (fun d => classify d = .ofKind .interface) ≤ 1

/-- Functions with the same visibility and the same receiver, all of them tests or none. -/
def HoldsAlikeFunctions (testPrefixes : List String) (bucket : List Decl) : Prop :=
  ∃ traits, ∀ d ∈ bucket, ∃ f, d = .func f ∧ Traits.of testPrefixes f = traits

/-- One structure among functions that belong to it, all of them tests or none. -/
def HoldsStructure (testPrefixes : List String) (bucket : List Decl) : Prop :=
  ∃ above span name below, bucket = above ++ .gen span .types [⟨name, .struct⟩] :: below ∧
    ∃ testing, ∀ d ∈ above ++ below, ∃ f, d = .func f ∧ BelongsTo name f ∧
      (Traits.of testPrefixes f).testing = testing

/-! ## Classes and kinds -/

theorem classFinding?_eq_none_iff :
    classFinding? d = none ↔
      (∀ span nodeKind, d ≠ .unrecognized span nodeKind) ∧
      ∀ span specs, d = .gen span .types specs → specs.length = 1 := by
  unfold classFinding?
  cases d with
  | func f => simp [classify]
  | unrecognized span nodeKind => simp [classify]
  | gen span keyword specs =>
    cases keyword with
    | imports => simp [classify]
    | consts => simp [classify]
    | vars => simp [classify]
    | types =>
      match specs with
      | [] => simp [classify]
      | [spec] => simp [classify]
      | _ :: _ :: _ => simp [classify]

theorem exists_classify_eq_of_classFinding? (h : classFinding? d = none) :
    ∃ k, classify d = .ofKind k := by
  unfold classFinding? at h
  cases hc : classify d <;> simp_all

theorem classify_eq_func_iff : classify d = .ofKind .func ↔ ∃ f, d = .func f := by
  fun_cases classify d <;> simp
  case case6 spec => cases spec.shape <;> simp [shapeKind]

theorem classify_eq_struct_iff :
    classify d = .ofKind .struct ↔ ∃ span name, d = .gen span .types [⟨name, .struct⟩] := by
  fun_cases classify d <;> simp
  case case6 spec =>
    obtain ⟨name, shape⟩ := spec
    cases shape <;> simp [shapeKind]
  case case7 h =>
    rintro name rfl
    exact h _ rfl

theorem mem_kinds_iff : k ∈ kinds bucket ↔ ∃ d ∈ bucket, (classify d).kind? = some k := by
  rw [kinds, ← appearances, mem_appearances]
  simp

theorem nodup_kinds (bucket : List Decl) : (kinds bucket).Nodup :=
  nodup_appearances List.nodup_nil _

theorem repeated?_eq_none_iff : repeated? bucket k = none ↔ (ofKind bucket k).length ≤ 1 := by
  rw [repeated?]
  split
  case h_1 h => simp [h]
  case h_2 h =>
    refine iff_of_true rfl ?_
    match hl : ofKind bucket k with
    | [] => exact Nat.zero_le 1
    | [_] => exact Nat.le.refl
    | first :: second :: rest => exact absurd hl (h first second rest)

section Classified

-- every declaration has a kind, as in a bucket without findings about single declarations
variable (hc : ∀ d ∈ bucket, ∃ k, classify d = .ofKind k)
include hc

theorem kind?_eq_iff (hd : d ∈ bucket) : (classify d).kind? = some k ↔ classify d = .ofKind k := by
  obtain ⟨k', hk'⟩ := hc d hd
  simp [hk', Class.kind?]

theorem kinds_eq_singleton_iff (hne : bucket ≠ []) :
    kinds bucket = [k] ↔ ∀ d ∈ bucket, classify d = .ofKind k := by
  have hmap : bucket.filterMap (fun d => (classify d).kind?) ≠ [] := by
    obtain ⟨d, hd⟩ := List.exists_mem_of_ne_nil bucket hne
    obtain ⟨k, hk⟩ := hc d hd
    exact List.ne_nil_of_mem (List.mem_filterMap.mpr ⟨d, hd, by rw [hk]; rfl⟩)
  rw [kinds, ← appearances, appearances_eq_singleton_iff hmap]
  constructor
  · intro h d hd
    obtain ⟨k', hk'⟩ := hc d hd
    rw [hk', h k' (List.mem_filterMap.mpr ⟨d, hd, by rw [hk']; rfl⟩)]
  · intro h k' hk'
    obtain ⟨d, hd, hdk⟩ := List.mem_filterMap.mp hk'
    rw [h d hd] at hdk
    exact (Option.some.inj hdk).symm

theorem ofKind_eq : ofKind bucket k = bucket.filter fun d => classify d = .ofKind k :=
  List.filter_congr fun _ hd => decide_eq_decide.mpr (kind?_eq_iff hc hd)

end Classified

theorem forbidden_eq_false_iff :
    ((kinds bucket).length > 2 || !(kinds bucket).all (!·.standsAlone)) = false ↔
      ∀ k ∈ kinds bucket, k = .struct ∨ k = .func := by
  have hall : (kinds bucket).all (!·.standsAlone) = true ↔
      ∀ k ∈ kinds bucket, k = .struct ∨ k = .func := by
    rw [List.all_eq_true]
    refine forall₂_congr fun k _ => ?_
    cases k <;> decide
  rw [Bool.or_eq_false_iff, Bool.not_eq_false', hall, decide_eq_false_iff_not,
    and_iff_right_iff_imp]
  intro h
  have hsub : kinds bucket ⊆ [.struct, .func] := fun k hk => by simpa using h k hk
  have := (nodup_kinds bucket).length_le_of_subset hsub
  simp only [List.length_cons, List.length_nil] at this
  omega

/-! ## The cascade -/

theorem length_ofKind_le_of_kindFindings (h : kindFindings testPrefixes bucket = []) :
    (ofKind bucket .interface).length ≤ 1 ∧ (ofKind bucket .struct).length ≤ 1 := by
  rw [← repeated?_eq_none_iff, ← repeated?_eq_none_iff]
  unfold kindFindings at h
  dsimp only at h
  split at h
  case h_1 => simp at h
  case h_2 h' => simpa using h'

/-- With one interface and one structure at most, the kinds settle which check applies. -/
theorem kindFindings_eq (hi : (ofKind bucket .interface).length ≤ 1)
    (hs : (ofKind bucket .struct).length ≤ 1) :
    kindFindings testPrefixes bucket =
      if (kinds bucket).length = 1 && (kinds bucket).all Kind.standsAlone then []
      else if kinds bucket = [.func] then
        functionFindings testPrefixes (bucket.filterMap Decl.func?)
      else if (kinds bucket).length > 2 || !(kinds bucket).all (!·.standsAlone) then
        (bucket.filter fun d => (classify d).kind?.isSome).map fun d =>
          ⟨d.span, forbiddenDeclarations (kinds bucket), none⟩
      else
        testingFindings testPrefixes (bucket.filterMap Decl.func?) ++
          (structName? bucket).elim [] fun struct =>
            adjacencyFindings struct (bucket.filterMap Decl.func?) := by
  rw [kindFindings, repeated?_eq_none_iff.mpr hi, repeated?_eq_none_iff.mpr hs]
  rfl

theorem kindFindings_of_func (h : kinds bucket = [.func]) :
    kindFindings testPrefixes bucket =
      functionFindings testPrefixes (bucket.filterMap Decl.func?) := by
  have hnone : ∀ k, k ≠ .func → (ofKind bucket k).length ≤ 1 := by
    intro k hk
    have hnot : k ∉ kinds bucket := by simpa [h] using hk
    have hnil : ofKind bucket k = [] := by
      refine List.filter_eq_nil_iff.mpr fun d hd hkind => hnot ?_
      exact mem_kinds_iff.mpr ⟨d, hd, of_decide_eq_true hkind⟩
    rw [hnil]
    exact Nat.zero_le 1
  rw [kindFindings_eq (hnone .interface (by decide)) (hnone .struct (by decide)), h]
  rfl

theorem holdsAlikeFunctions_iff (h : ∀ d ∈ bucket, classify d = .ofKind .func) :
    HoldsAlikeFunctions testPrefixes bucket ↔
      AgreeIn (Traits.of testPrefixes) (bucket.filterMap Decl.func?) := by
  constructor
  · rintro ⟨traits, ht⟩ f hf g hg
    obtain ⟨f', hf', rfl⟩ := ht _ (Decl.mem_filterMap_func?_iff.mp hf)
    obtain ⟨g', hg', hg⟩ := ht _ (Decl.mem_filterMap_func?_iff.mp hg)
    cases hf'
    cases hg'
    exact hg.symm
  · intro ha
    cases bucket with
    | nil => exact ⟨⟨none, false, false⟩, by simp⟩
    | cons d bucket =>
      obtain ⟨f, rfl⟩ := classify_eq_func_iff.mp (h d List.mem_cons_self)
      refine ⟨Traits.of testPrefixes f, fun d hd => ?_⟩
      obtain ⟨g, rfl⟩ := classify_eq_func_iff.mp (h d hd)
      exact ⟨g, rfl, ha g (Decl.mem_filterMap_func?_iff.mpr hd) f
        (Decl.mem_filterMap_func?_iff.mpr List.mem_cons_self)⟩

section Structure

variable {above below : List Decl} (span : Span) (name : String)

theorem exists_structure (hc : ∀ d ∈ bucket, ∃ k, classify d = .ofKind k)
    (hs : (ofKind bucket .struct).length ≤ 1) (hmem : .struct ∈ kinds bucket)
    (hmix : ∀ k ∈ kinds bucket, k = .struct ∨ k = .func) :
    ∃ above span name below, bucket = above ++ .gen span .types [⟨name, .struct⟩] :: below ∧
      ∀ d ∈ above ++ below, ∃ f, d = .func f := by
  rw [ofKind_eq hc] at hs
  obtain ⟨d, hd, hk⟩ := mem_kinds_iff.mp hmem
  rw [kind?_eq_iff hc hd] at hk
  have hlen := Nat.le_antisymm hs (List.length_pos_of_mem
    (List.mem_filter.mpr ⟨hd, decide_eq_true hk⟩))
  obtain ⟨s, hs⟩ := List.length_eq_one_iff.mp hlen
  obtain ⟨above, below, rfl, habove, hstruct, hbelow⟩ := List.filter_eq_cons_iff.mp hs
  obtain ⟨span, name, rfl⟩ := classify_eq_struct_iff.mp (of_decide_eq_true hstruct)
  refine ⟨above, span, name, below, rfl, fun d hd => classify_eq_func_iff.mp ?_⟩
  have hd' : d ∈ above ++ .gen span .types [⟨name, .struct⟩] :: below := by
    simp only [List.mem_append, List.mem_cons] at hd ⊢
    tauto
  have hne : classify d ≠ .ofKind .struct := by
    rcases List.mem_append.mp hd with h | h
    · simpa using habove d h
    · simpa using List.filter_eq_nil_iff.mp hbelow d h
  obtain ⟨k, hk⟩ := hc d hd'
  rcases hmix k (mem_kinds_iff.mpr ⟨d, hd', (kind?_eq_iff hc hd').mpr hk⟩) with rfl | rfl
  · exact absurd hk hne
  · exact hk

variable (hf : ∀ d ∈ above ++ below, ∃ f, d = .func f)
include hf

theorem classify_eq_of_structure :
    ∀ d ∈ above ++ .gen span .types [⟨name, .struct⟩] :: below,
      classify d = .ofKind .struct ∨ classify d = .ofKind .func := by
  intro d hd
  simp only [List.mem_append, List.mem_cons] at hd
  by_cases he : d = .gen span .types [⟨name, .struct⟩]
  · exact .inl (classify_eq_struct_iff.mpr ⟨span, name, he⟩)
  · exact .inr (classify_eq_func_iff.mpr (hf d (List.mem_append.mpr (by tauto))))

theorem ofKind_struct_of_structure :
    ofKind (above ++ .gen span .types [⟨name, .struct⟩] :: below) .struct =
      [.gen span .types [⟨name, .struct⟩]] := by
  have hno : ∀ ds ⊆ above ++ below,
      ds.filter (fun d => (classify d).kind? = some .struct) = [] := by
    intro ds hds
    rw [List.filter_eq_nil_iff]
    intro d hd
    obtain ⟨f, rfl⟩ := hf d (hds hd)
    simp [classify, Class.kind?]
  rw [ofKind, List.filter_append,
    List.filter_cons_of_pos (by simp [classify, shapeKind, Class.kind?]),
    hno above (List.subset_append_left _ _), hno below (List.subset_append_right _ _),
    List.nil_append]

theorem length_ofKind_interface_of_structure :
    (ofKind (above ++ .gen span .types [⟨name, .struct⟩] :: below) .interface).length = 0 := by
  rw [List.length_eq_zero_iff, ofKind, List.filter_eq_nil_iff]
  intro d hd
  rcases classify_eq_of_structure span name hf d hd with h | h <;> simp [h, Class.kind?]

theorem kindFindings_of_structure :
    kindFindings testPrefixes (above ++ .gen span .types [⟨name, .struct⟩] :: below) =
      testingFindings testPrefixes ((above ++ below).filterMap Decl.func?) ++
        adjacencyFindings name ((above ++ below).filterMap Decl.func?) := by
  have hclass := classify_eq_of_structure span name hf
  have hstruct := ofKind_struct_of_structure span name hf
  have hinterface := length_ofKind_interface_of_structure span name hf
  generalize hb : above ++ .gen span .types [⟨name, .struct⟩] :: below = bucket at *
  have hmem : .struct ∈ kinds bucket :=
    mem_kinds_iff.mpr ⟨_, by rw [← hb]; exact List.mem_append_right _ List.mem_cons_self, rfl⟩
  have hmix : ∀ k ∈ kinds bucket, k = .struct ∨ k = .func := by
    intro k hk
    obtain ⟨d, hd, hk⟩ := mem_kinds_iff.mp hk
    rcases hclass d hd with h | h <;> simp_all [Class.kind?]
  have halone : ((kinds bucket).length = 1 && (kinds bucket).all Kind.standsAlone) = false := by
    rw [Bool.and_eq_false_iff]
    refine .inr (List.all_eq_false.mpr ⟨.struct, hmem, by decide⟩)
  have hfunc : kinds bucket ≠ [.func] := by
    intro h
    simp [h] at hmem
  have hname : structName? bucket = some name := by rw [structName?, hstruct]
  have hfs : bucket.filterMap Decl.func? = (above ++ below).filterMap Decl.func? := by
    rw [← hb, List.filterMap_append, List.filterMap_cons_none rfl, ← List.filterMap_append]
  rw [kindFindings_eq (by omega) (by rw [hstruct]; exact Nat.le.refl), halone,
    forbidden_eq_false_iff.mpr hmix, if_neg hfunc, hname, hfs]
  rfl

end Structure

/-! ## Silence -/

theorem length_ofKind_of_oneKind (hc : ∀ d ∈ bucket, ∃ k, classify d = .ofKind k)
    (h : ∀ d ∈ bucket, classify d = .ofKind k) (k' : Kind) :
    (ofKind bucket k').length = if k' = k then bucket.length else 0 := by
  rw [ofKind_eq hc]
  split
  case isTrue he =>
    subst he
    rw [List.filter_eq_self.mpr fun d hd => decide_eq_true (h d hd)]
  case isFalse hne =>
    rw [List.length_eq_zero_iff, List.filter_eq_nil_iff]
    intro d hd
    simp [h d hd, Ne.symm hne]

theorem kindFindings_of_oneKind (hne : bucket ≠ []) (h : HoldsOneKind bucket) :
    kindFindings testPrefixes bucket = [] := by
  obtain ⟨k, hk, hall, hcount⟩ := h
  have hc : ∀ d ∈ bucket, ∃ k, classify d = .ofKind k := fun d hd => ⟨k, hall d hd⟩
  have halone : k.standsAlone = true := by
    simp only [List.mem_cons, List.not_mem_nil, or_false] at hk
    rcases hk with rfl | rfl | rfl | rfl | rfl <;> rfl
  have hi : (ofKind bucket .interface).length ≤ 1 := by
    rwa [ofKind_eq hc, ← List.countP_eq_length_filter]
  have hs : (ofKind bucket .struct).length ≤ 1 := by
    have : k ≠ .struct := by
      rintro rfl
      cases halone
    rw [length_ofKind_of_oneKind hc hall, if_neg (Ne.symm this)]
    exact Nat.zero_le 1
  rw [kindFindings_eq hi hs, (kinds_eq_singleton_iff hc hne).mpr hall]
  simp [halone]

theorem kindFindings_functions (hne : bucket ≠ [])
    (hall : ∀ d ∈ bucket, classify d = .ofKind .func) :
    kindFindings testPrefixes bucket =
      functionFindings testPrefixes (bucket.filterMap Decl.func?) := by
  have hc : ∀ d ∈ bucket, ∃ k, classify d = .ofKind k := fun d hd => ⟨.func, hall d hd⟩
  have hi := length_ofKind_of_oneKind hc hall .interface
  have hs := length_ofKind_of_oneKind hc hall .struct
  rw [kindFindings_eq (by simp [hi]) (by simp [hs]), (kinds_eq_singleton_iff hc hne).mpr hall]
  rfl

theorem kindFindings_of_functions (hne : bucket ≠ [])
    (hr : ∀ f, .func f ∈ bucket → f.receiver ≠ some "<none>")
    (hall : ∀ d ∈ bucket, classify d = .ofKind .func) :
    kindFindings testPrefixes bucket = [] ↔ HoldsAlikeFunctions testPrefixes bucket := by
  rw [kindFindings_functions hne hall, holdsAlikeFunctions_iff hall, functionFindings_eq_nil_iff]
  exact fun f hf => hr f (Decl.mem_filterMap_func?_iff.mp hf)

theorem kindFindings_of_structure_eq_nil_iff {above below : List Decl} (span : Span) (name : String)
    (hf : ∀ d ∈ above ++ below, ∃ f, d = .func f) :
    kindFindings testPrefixes (above ++ .gen span .types [⟨name, .struct⟩] :: below) = [] ↔
      ∃ testing, ∀ d ∈ above ++ below, ∃ f, d = .func f ∧ BelongsTo name f ∧
        (Traits.of testPrefixes f).testing = testing := by
  rw [kindFindings_of_structure span name hf, List.append_eq_nil_iff, testingFindings_eq_nil_iff,
    adjacencyFindings_eq_nil_iff]
  generalize above ++ below = others at hf
  constructor
  · rintro ⟨ht, hb⟩
    cases others with
    | nil => exact ⟨false, by simp⟩
    | cons d others =>
      obtain ⟨f, rfl⟩ := hf d List.mem_cons_self
      refine ⟨(Traits.of testPrefixes f).testing, fun d hd => ?_⟩
      obtain ⟨g, rfl⟩ := hf d hd
      have hg := Decl.mem_filterMap_func?_iff.mpr hd
      exact ⟨g, rfl, hb g hg, ht g hg f (Decl.mem_filterMap_func?_iff.mpr List.mem_cons_self)⟩
  · rintro ⟨testing, h⟩
    have hfun : ∀ f ∈ others.filterMap Decl.func?,
        BelongsTo name f ∧ (Traits.of testPrefixes f).testing = testing := by
      intro f hf
      obtain ⟨f', hf', hb, ht⟩ := h _ (Decl.mem_filterMap_func?_iff.mp hf)
      cases hf'
      exact ⟨hb, ht⟩
    exact ⟨fun f hf g hg => (hfun f hf).2.trans (hfun g hg).2.symm, fun f hf => (hfun f hf).1⟩

theorem holdsOneKind_of_kindFindings (hne : bucket ≠ [])
    (hc : ∀ d ∈ bucket, ∃ k, classify d = .ofKind k) (hk : k ∈ kinds bucket)
    (hsingle : k ≠ .struct ∧ k ≠ .func) (h : kindFindings testPrefixes bucket = []) :
    HoldsOneKind bucket := by
  obtain ⟨hi, hs⟩ := length_ofKind_le_of_kindFindings h
  rw [kindFindings_eq hi hs] at h
  split at h
  case isTrue halone =>
    simp only [Bool.and_eq_true, decide_eq_true_eq] at halone
    obtain ⟨k', hk'⟩ := List.length_eq_one_iff.mp halone.1
    obtain rfl : k = k' := by simpa [hk'] using hk
    refine ⟨k, ?_, (kinds_eq_singleton_iff hc hne).mp hk', ?_⟩
    · cases k <;> simp_all
    · rwa [List.countP_eq_length_filter, ← ofKind_eq hc]
  case isFalse =>
    have hforbidden :
        ((kinds bucket).length > 2 || !(kinds bucket).all (!·.standsAlone)) = true := by
      rw [← Bool.not_eq_false, forbidden_eq_false_iff]
      intro hmix
      rcases hmix k hk with rfl | rfl
      · exact hsingle.1 rfl
      · exact hsingle.2 rfl
    have hfunc : kinds bucket ≠ [.func] := by
      intro he
      rw [he, List.mem_singleton] at hk
      exact hsingle.2 hk
    obtain ⟨d, hd, hdk⟩ := mem_kinds_iff.mp hk
    rw [if_neg hfunc, if_pos hforbidden, List.map_eq_nil_iff, List.filter_eq_nil_iff] at h
    exact absurd (by simp [hdk]) (h d hd)

theorem kindFindings_eq_nil_iff (hne : bucket ≠ [])
    (hr : ∀ f, .func f ∈ bucket → f.receiver ≠ some "<none>")
    (hc : ∀ d ∈ bucket, ∃ k, classify d = .ofKind k) :
    kindFindings testPrefixes bucket = [] ↔
      HoldsOneKind bucket ∨ HoldsAlikeFunctions testPrefixes bucket ∨
        HoldsStructure testPrefixes bucket := by
  constructor
  · intro h
    by_cases hmix : ∀ k ∈ kinds bucket, k = .struct ∨ k = .func
    · by_cases hmem : .struct ∈ kinds bucket
      · obtain ⟨above, span, name, below, rfl, hf⟩ :=
          exists_structure hc (length_ofKind_le_of_kindFindings h).2 hmem hmix
        exact .inr (.inr ⟨above, span, name, below, rfl,
          (kindFindings_of_structure_eq_nil_iff span name hf).mp h⟩)
      · have hall : ∀ d ∈ bucket, classify d = .ofKind .func := by
          intro d hd
          obtain ⟨k, hk⟩ := hc d hd
          have hk' : k ∈ kinds bucket := mem_kinds_iff.mpr ⟨d, hd, (kind?_eq_iff hc hd).mpr hk⟩
          rcases hmix k hk' with rfl | rfl
          · exact absurd hk' hmem
          · exact hk
        exact .inr (.inl ((kindFindings_of_functions hne hr hall).mp h))
    · obtain ⟨k, hk, hsingle⟩ : ∃ k ∈ kinds bucket, k ≠ .struct ∧ k ≠ .func := by
        simpa using hmix
      exact .inl (holdsOneKind_of_kindFindings hne hc hk hsingle h)
  · rintro (h | h | ⟨above, span, name, below, rfl, testing, h⟩)
    · exact kindFindings_of_oneKind hne h
    · have hall : ∀ d ∈ bucket, classify d = .ofKind .func := by
        obtain ⟨traits, h⟩ := h
        intro d hd
        obtain ⟨f, rfl, -⟩ := h d hd
        rfl
      exact (kindFindings_of_functions hne hr hall).mpr h
    · have hf : ∀ d ∈ above ++ below, ∃ f, d = .func f := fun d hd =>
        let ⟨f, hf, _⟩ := h d hd
        ⟨f, hf⟩
      exact (kindFindings_of_structure_eq_nil_iff span name hf).mpr ⟨testing, h⟩

/-- A bucket has no findings exactly when all its declarations are known, each type declaration
has one name, and together they are one entity. -/
theorem bucketFindings_eq_nil_iff (testPrefixes : List String) (bucket : List Decl)
    (hne : bucket ≠ []) (hr : ∀ f, .func f ∈ bucket → f.receiver ≠ some "<none>") :
    bucketFindings testPrefixes bucket = [] ↔
      (∀ span nodeKind, .unrecognized span nodeKind ∉ bucket) ∧
      (∀ span specs, .gen span .types specs ∈ bucket → specs.length = 1) ∧
      (HoldsOneKind bucket ∨ HoldsAlikeFunctions testPrefixes bucket ∨
        HoldsStructure testPrefixes bucket) := by
  have hclass : bucket.filterMap classFinding? = [] ↔
      (∀ span nodeKind, .unrecognized span nodeKind ∉ bucket) ∧
      ∀ span specs, .gen span .types specs ∈ bucket → specs.length = 1 := by
    simp only [List.filterMap_eq_nil_iff, classFinding?_eq_none_iff]
    constructor
    · exact fun h => ⟨fun span nodeKind hd => (h _ hd).1 span nodeKind rfl,
        fun span specs hd => (h _ hd).2 span specs rfl⟩
    · rintro ⟨hu, ht⟩ d hd
      exact ⟨fun span nodeKind he => hu span nodeKind (he ▸ hd),
        fun span specs he => ht span specs (he ▸ hd)⟩
  rw [bucketFindings, List.append_eq_nil_iff, ← and_assoc, ← hclass]
  refine and_congr_right fun h => kindFindings_eq_nil_iff hne hr fun d hd => ?_
  exact exists_classify_eq_of_classFinding? (List.filterMap_eq_nil_iff.mp h d hd)

theorem bucketFindings_eq_nil_of_constructor_and_method :
    let create : FuncDecl := ⟨⟨0, 30⟩, "NewServer", none, ⟨14, 16⟩, [.pointer "Server"], none⟩
    let stop : FuncDecl := ⟨⟨60, 90⟩, "stop", some "Server", ⟨80, 82⟩, [], none⟩
    let bucket : List Decl :=
      [.func create, .gen ⟨32, 58⟩ .types [⟨"Server", .struct⟩], .func stop]
    bucket ≠ [] ∧ (∀ f, .func f ∈ bucket → f.receiver ≠ some "<none>") ∧
      HoldsStructure ["Test"] bucket ∧ bucketFindings ["Test"] bucket = [] := by
  intro create stop bucket
  have hne : bucket ≠ [] := List.cons_ne_nil _ _
  have hr : ∀ f, .func f ∈ bucket → f.receiver ≠ some "<none>" := by
    simp [bucket, create, stop]
  have hs : HoldsStructure ["Test"] bucket := by
    refine ⟨[.func create], ⟨32, 58⟩, "Server", [.func stop], rfl, false, ?_⟩
    intro d hd
    simp only [List.cons_append, List.nil_append, List.mem_cons, List.not_mem_nil, or_false] at hd
    rcases hd with rfl | rfl
    · exact ⟨create, rfl, by simp [BelongsTo, create, isConstructorOf, declaresResult], by decide⟩
    · exact ⟨stop, rfl, rfl, by decide⟩
  refine ⟨hne, hr, hs, ?_⟩
  refine (bucketFindings_eq_nil_iff ["Test"] bucket hne hr).mpr ⟨?_, ?_, .inr (.inr hs)⟩
  · simp [bucket]
  · simp [bucket]

end LayoutLint.Separator
