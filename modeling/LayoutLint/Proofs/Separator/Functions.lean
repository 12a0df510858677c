import LayoutLint.Rules.Separator.Bucket
import Mathlib.Data.List.TakeWhile

/-! # Functions in one bucket

Each check of the functions in a bucket compares every function with the first. It finds nothing
exactly when they all agree in what it looks at.
-/

namespace LayoutLint.Separator

/-! ## First appearances -/

section Appearances

variable {α : Type} [BEq α] [LawfulBEq α]

/-- The elements that follow those already seen, each once, in order of appearance. -/
def appearances (seen xs : List α) : List α :=
  xs.foldl (fun seen x => if seen.contains x then seen else seen ++ [x]) seen

theorem mem_appearances {seen xs : List α} {y : α} :
    y ∈ appearances seen xs ↔ y ∈ seen ∨ y ∈ xs := by
  induction xs generalizing seen with
  | nil => simp [appearances]
  | cons x xs ih =>
    rw [appearances, List.foldl_cons, ← appearances, ih, List.mem_cons]
    split
    case isTrue h =>
      rw [List.contains_iff_mem] at h
      constructor
      · rintro (h' | h')
        · exact .inl h'
        · exact .inr (.inr h')
      · rintro (h' | rfl | h')
        · exact .inl h'
        · exact .inl h
        · exact .inr h'
    case isFalse => rw [List.mem_append, List.mem_singleton, or_assoc]

theorem nodup_appearances {seen : List α} (h : seen.Nodup) (xs : List α) :
    (appearances seen xs).Nodup := by
  induction xs generalizing seen with
  | nil => exact h
  | cons x xs ih =>
    rw [appearances, List.foldl_cons, ← appearances]
    split
    case isTrue => exact ih h
    case isFalse hx =>
      rw [List.contains_iff_mem] at hx
      apply ih
      refine List.nodup_append.mpr ⟨h, by simp, ?_⟩
      rintro a ha b hb rfl
      exact hx (List.mem_singleton.mp hb ▸ ha)

theorem appearances_eq_singleton_iff {xs : List α} {a : α} (hne : xs ≠ []) :
    appearances [] xs = [a] ↔ ∀ x ∈ xs, x = a := by
  have hmem : ∀ x, x ∈ appearances [] xs ↔ x ∈ xs := fun x => by simp [mem_appearances]
  constructor
  · intro h x hx
    rwa [← hmem, h, List.mem_singleton] at hx
  · intro h
    have hsub : appearances [] xs ⊆ [a] := fun x hx =>
      List.mem_singleton.mpr (h x ((hmem x).mp hx))
    have hlen := (nodup_appearances List.nodup_nil xs).length_le_of_subset hsub
    obtain ⟨x, hx⟩ := List.exists_mem_of_ne_nil xs hne
    have hpos := List.length_pos_of_mem ((hmem x).mpr hx)
    obtain ⟨b, hb⟩ := List.length_eq_one_iff.mp (Nat.le_antisymm hlen hpos)
    rw [hb, h b ((hmem b).mp (by simp [hb]))]

theorem length_appearances_lt_two_iff {xs : List α} :
    (appearances [] xs).length < 2 ↔ ∀ x ∈ xs, ∀ y ∈ xs, x = y := by
  cases xs with
  | nil => simp [appearances]
  | cons a xs =>
    have hsing := appearances_eq_singleton_iff (a := a) (List.cons_ne_nil a xs)
    constructor
    · intro h
      have ha : a ∈ appearances [] (a :: xs) := by simp [mem_appearances]
      obtain ⟨b, he⟩ := List.length_eq_one_iff.mp
        (Nat.le_antisymm (Nat.le_of_lt_succ h) (List.length_pos_of_mem ha))
      obtain rfl : a = b := by simpa [he] using ha
      intro x hx y hy
      rw [hsing.mp he x hx, hsing.mp he y hy]
    · intro h
      rw [hsing.mpr fun x hx => h x hx a List.mem_cons_self]
      exact Nat.one_lt_two

end Appearances

/-! ## Agreement -/

def AgreeIn {β : Type} (r : FuncDecl → β) (fs : List FuncDecl) : Prop :=
  ∀ f ∈ fs, ∀ g ∈ fs, r f = r g

theorem agreeIn_nil {β : Type} (r : FuncDecl → β) : AgreeIn r [] :=
  fun _ h => absurd h List.not_mem_nil

theorem agreeIn_cons_iff {β : Type} {r : FuncDecl → β} {first : FuncDecl} {fs : List FuncDecl} :
    AgreeIn r (first :: fs) ↔ ∀ f ∈ first :: fs, r f = r first := by
  constructor
  · exact fun h f hf => h f hf first List.mem_cons_self
  · exact fun h f hf g hg => (h f hf).trans (h g hg).symm

def blame (message : String) (f : FuncDecl) : Finding := ⟨f.span, message, none⟩

variable {testPrefixes : List String} {fs : List FuncDecl}

theorem visibilityFindings_eq_nil_iff :
    visibilityFindings testPrefixes fs = [] ↔
      AgreeIn (fun f => (Traits.of testPrefixes f).exported) fs := by
  cases fs with
  | nil => exact iff_of_true rfl (agreeIn_nil _)
  | cons first fs =>
    rw [visibilityFindings, List.map_eq_nil_iff, List.dropWhile_eq_nil_iff, agreeIn_cons_iff]
    simp only [beq_iff_eq]

/-- The first function of some combination of traits that has a property is the first function of
all that has it, unless a combination seen before has it. -/
theorem find?_firstOfTraits (p : Traits → Bool) (seen : List Traits)
    (hseen : ∀ traits ∈ seen, p traits = false) :
    ((firstOfTraits testPrefixes seen fs).find? fun x => p x.1).map Prod.snd =
      fs.find? fun f => p (Traits.of testPrefixes f) := by
  induction fs generalizing seen with
  | nil => rfl
  | cons f fs ih =>
    rw [firstOfTraits]
    by_cases hp : p (Traits.of testPrefixes f) = true
    · -- a combination with the property has not been seen, so its first function is this one
      have hnew : ¬ seen.contains (Traits.of testPrefixes f) = true := by
        rw [List.contains_iff_mem]
        intro hmem
        rw [hseen _ hmem] at hp
        cases hp
      rw [if_neg hnew]
      simp only [List.find?_cons, hp, Option.map_some]
    · rw [Bool.not_eq_true] at hp
      split
      case isTrue =>
        simp only [List.find?_cons, hp]
        exact ih seen hseen
      case isFalse =>
        simp only [List.find?_cons, hp]
        refine ih _ fun traits htraits => ?_
        rcases List.mem_cons.mp htraits with rfl | htraits
        · exact hp
        · exact hseen traits htraits

/-- Looking at the first function of each combination of traits misses no test. -/
theorem testingFindings_cons (first : FuncDecl) :
    testingFindings testPrefixes (first :: fs) =
      (fs.find? fun f => (Traits.of testPrefixes f).testing !=
        (Traits.of testPrefixes first).testing).elim []
          fun other => [blame mixedTesting first, blame mixedTesting other] := by
  rw [← find?_firstOfTraits (fun traits => traits.testing !=
    (Traits.of testPrefixes first).testing) [Traits.of testPrefixes first] (by simp)]
  have hfirst : firstOfTraits testPrefixes [] (first :: fs) =
      (Traits.of testPrefixes first, first) ::
        firstOfTraits testPrefixes [Traits.of testPrefixes first] fs := rfl
  rw [testingFindings, hfirst]
  dsimp only
  cases (firstOfTraits testPrefixes [Traits.of testPrefixes first] fs).find?
    fun x => x.1.testing != (Traits.of testPrefixes first).testing <;> rfl

theorem testingFindings_eq_nil_iff :
    testingFindings testPrefixes fs = [] ↔
      AgreeIn (fun f => (Traits.of testPrefixes f).testing) fs := by
  cases fs with
  | nil => exact iff_of_true rfl (agreeIn_nil _)
  | cons first fs =>
    rw [testingFindings_cons, agreeIn_cons_iff, List.forall_mem_cons, and_iff_right rfl]
    cases hfind : fs.find? fun f => (Traits.of testPrefixes f).testing !=
        (Traits.of testPrefixes first).testing with
    | none => exact iff_of_true rfl (by simpa using hfind)
    | some other =>
      refine iff_of_false (List.cons_ne_nil _ _) fun h => ?_
      have hother := List.find?_some hfind
      rw [h other (List.mem_of_find?_eq_some hfind), bne_self_eq_false] at hother
      cases hother

/-- A name that stands for no receiver hides the difference between the two. -/
theorem label_injective {traits traits' : Traits} (h : traits.receiver ≠ some "<none>")
    (h' : traits'.receiver ≠ some "<none>") :
    traits.label = traits'.label ↔ traits.receiver = traits'.receiver := by
  unfold Traits.label
  cases hr : traits.receiver <;> cases hr' : traits'.receiver <;>
    simp_all [eq_comm]

theorem receiverFindings_eq_nil_iff_label :
    receiverFindings testPrefixes fs = [] ↔
      AgreeIn (fun f => (Traits.of testPrefixes f).label) fs := by
  have hlabels : (receiverLabels testPrefixes fs).length < 2 ↔
      AgreeIn (fun f => (Traits.of testPrefixes f).label) fs := by
    rw [receiverLabels, ← appearances, length_appearances_lt_two_iff]
    simp only [List.forall_mem_map, AgreeIn]
  rw [← hlabels, receiverFindings]
  split
  case isTrue h => exact iff_of_true rfl h
  case isFalse h =>
    simp only [h, iff_false, List.map_eq_nil_iff]
    rintro rfl
    exact h Nat.zero_lt_two

theorem receiverFindings_eq_nil_iff (hr : ∀ f ∈ fs, f.receiver ≠ some "<none>") :
    receiverFindings testPrefixes fs = [] ↔ AgreeIn FuncDecl.receiver fs := by
  rw [receiverFindings_eq_nil_iff_label]
  refine forall₂_congr fun f hf => forall₂_congr fun g hg => ?_
  exact label_injective (hr f hf) (hr g hg)

theorem functionFindings_eq_nil_iff (hr : ∀ f ∈ fs, f.receiver ≠ some "<none>") :
    functionFindings testPrefixes fs = [] ↔ AgreeIn (Traits.of testPrefixes) fs := by
  rw [functionFindings, List.append_eq_nil_iff, List.append_eq_nil_iff,
    visibilityFindings_eq_nil_iff, testingFindings_eq_nil_iff, receiverFindings_eq_nil_iff hr]
  constructor
  · rintro ⟨⟨he, ht⟩, hrec⟩ f hf g hg
    have := he f hf g hg
    have := ht f hf g hg
    have := hrec f hf g hg
    simp_all [Traits.of]
  · intro h
    refine ⟨⟨?_, ?_⟩, ?_⟩ <;> intro f hf g hg
    · exact congrArg Traits.exported (h f hf g hg)
    · exact congrArg Traits.testing (h f hf g hg)
    · exact congrArg Traits.receiver (h f hf g hg)

/-- The function is a method of the structure or constructs it. -/
def BelongsTo (struct : String) (f : FuncDecl) : Prop :=
  match f.receiver with
  | none => isConstructorOf f struct = true
  | some receiver => receiver = struct

theorem adjacencyFindings_eq_nil_iff {struct : String} :
    adjacencyFindings struct fs = [] ↔ ∀ f ∈ fs, BelongsTo struct f := by
  rw [adjacencyFindings, List.filterMap_eq_nil_iff]
  refine forall₂_congr fun f _ => ?_
  unfold BelongsTo
  split <;> split <;> simp_all

end LayoutLint.Separator
