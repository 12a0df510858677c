import Mathlib.Data.List.Forall2

/-! # Steps one after another

A run takes one step for each element of a list and ends at the first step that fails. What every
step keeps is kept by the run. A list that is read element by element is read if every element is.
-/

namespace LayoutLint

variable {σ α ε : Type} {f : σ → α → Except ε σ} {a : α} {as bs : List α} {s t : σ}

theorem foldlM_singleton : [a].foldlM f s = f s a := by
  rw [List.foldlM_cons]
  cases f s a <;> rfl

theorem foldlM_cons_eq_ok_iff :
    (a :: as).foldlM f s = .ok t ↔ ∃ m, f s a = .ok m ∧ as.foldlM f m = .ok t := by
  rw [List.foldlM_cons]
  cases f s a <;> simp [bind, Except.bind]

theorem foldlM_append_eq_ok_iff :
    (as ++ bs).foldlM f s = .ok t ↔ ∃ m, as.foldlM f s = .ok m ∧ bs.foldlM f m = .ok t := by
  rw [List.foldlM_append]
  cases as.foldlM f s <;> simp [bind, Except.bind]

theorem foldlM_keeps {P : σ → Prop} (hstep : ∀ {s a t}, P s → f s a = .ok t → P t) (hs : P s)
    (h : as.foldlM f s = .ok t) : P t := by
  induction as generalizing s with
  | nil =>
    cases h
    exact hs
  | cons a as ih =>
    obtain ⟨m, hm, hrest⟩ := foldlM_cons_eq_ok_iff.mp h
    exact ih (hstep hs hm) hrest

theorem foldlM_eq_ok_foldl {g : σ → α → σ} (hstep : ∀ s a, f s a = .ok (g s a)) (as : List α)
    (s : σ) : as.foldlM f s = .ok (as.foldl g s) := by
  induction as generalizing s with
  | nil => rfl
  | cons a as ih => exact foldlM_cons_eq_ok_iff.mpr ⟨g s a, hstep s a, ih (g s a)⟩

/-- A run from a related state takes the same steps. -/
theorem foldlM_follows {R : σ → σ → Prop} {s' : σ}
    (hstep : ∀ {s s' a t}, R s s' → f s a = .ok t → ∃ t', f s' a = .ok t' ∧ R t t') (hs : R s s')
    (h : as.foldlM f s = .ok t) : ∃ t', as.foldlM f s' = .ok t' ∧ R t t' := by
  induction as generalizing s s' with
  | nil =>
    cases h
    exact ⟨s', rfl, hs⟩
  | cons a as ih =>
    obtain ⟨m, hm, hrest⟩ := foldlM_cons_eq_ok_iff.mp h
    obtain ⟨m', hm', hmm'⟩ := hstep hs hm
    obtain ⟨t', ht', htt'⟩ := ih hmm' hrest
    exact ⟨t', foldlM_cons_eq_ok_iff.mpr ⟨m', hm', ht'⟩, htt'⟩

theorem mapM_eq_some_iff {α β : Type} {read : β → Option α} {bs : List β} {as : List α} :
    bs.mapM read = some as ↔ List.Forall₂ (fun b a => read b = some a) bs as := by
  induction bs generalizing as with
  | nil => simp [eq_comm]
  | cons b bs ih =>
    simp only [List.mapM_cons, List.forall₂_cons_left_iff, ← ih]
    cases read b <;> cases bs.mapM read <;> simp [eq_comm]

theorem exists_forall₂_iff {α β : Type} {R : β → α → Prop} {bs : List β} :
    (∃ as, List.Forall₂ R bs as) ↔ ∀ b ∈ bs, ∃ a, R b a := by
  induction bs with
  | nil => simp
  | cons b bs ih =>
    simp only [List.forall₂_cons_left_iff, List.forall_mem_cons, ← ih]
    constructor
    · rintro ⟨_, a, as, ha, has, rfl⟩
      exact ⟨⟨a, ha⟩, as, has⟩
    · rintro ⟨⟨a, ha⟩, as, has⟩
      exact ⟨a :: as, a, as, ha, has, rfl⟩

end LayoutLint
