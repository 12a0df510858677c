import LayoutLint.Path
import LayoutLint.Proofs.Sorting

/-! # The order of paths

Paths are ordered as sequences of components. Two paths compare equal exactly when they have the
same components, whatever their texts.
-/

namespace LayoutLint.Path

open Std

/-- Both texts have the same components. -/
def Same (a b : String) : Prop := components a = components b

instance (a b : String) : Decidable (Same a b) := inferInstanceAs (Decidable (_ = _))

namespace Component

def text : Component → String
  | normal name => name
  | _ => ""

theorem compare_eq_compareLex : compare = compareLex (compareOn rank) (compareOn text) := by
  funext a b
  cases a with
  | normal name =>
    cases b with
    | normal name' => simp [compare, compareLex, compareOn, rank, text]
    | _ => rfl
  | _ => cases b <;> rfl

instance : TransCmp compare := by
  rw [compare_eq_compareLex]
  infer_instance

instance : LawfulEqCmp compare where
  eq_of_compare {a b} h := by
    rw [compare_eq_compareLex, compareLex, Ordering.then_eq_eq, compareOn, compareOn,
      LawfulEqCmp.compare_eq_iff_eq, LawfulEqCmp.compare_eq_iff_eq] at h
    obtain ⟨hrank, htext⟩ := h
    cases a <;> cases b <;> simp_all [rank, text]

end Component

theorem compareComponents_eq_compareLex :
    compareComponents = List.compareLex Component.compare := by
  funext as bs
  induction as generalizing bs with
  | nil => cases bs <;> rfl
  | cons a as ih =>
    cases bs with
    | nil => rfl
    | cons b bs => rw [compareComponents, ih, List.compareLex_cons_cons]

instance : TransCmp compare := by
  have hlists : TransCmp compareComponents := by
    rw [compareComponents_eq_compareLex]
    infer_instance
  exact transCmp_comap compareComponents components

theorem compare_eq_iff {a b : String} : compare a b = .eq ↔ Same a b := by
  rw [compare, compareComponents_eq_compareLex, LawfulEqCmp.compare_eq_iff_eq, Same]

end LayoutLint.Path
