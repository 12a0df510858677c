import Mathlib.Data.List.Basic

/-! # Stable sorting

A comparison may find different elements equal. A stable sort keeps the order of those, and this
settles the result: a list has one stably sorted form only. So one may sort first and select
afterwards, or the other way round.
-/

namespace LayoutLint

open Std

theorem transCmp_comap {α β : Type} (cmp : β → β → Ordering) [TransCmp cmp] (f : α → β) :
    TransCmp fun a b => cmp (f a) (f b) where
  eq_swap := OrientedCmp.eq_swap
  isLE_trans := TransCmp.isLE_trans

/-- The second list has the elements of the first in the order of a comparison; those that
compare equal keep their order. -/
structure StablySorted {α : Type} (cmp : α → α → Ordering) (xs ys : List α) : Prop where
  perm : ys.Perm xs
  sorted : ys.Pairwise fun a b => cmp a b ≠ .gt
  stable : ∀ a, ys.filter (cmp a · = .eq) = xs.filter (cmp a · = .eq)

section

variable {α : Type} {cmp : α → α → Ordering} [TransCmp cmp] {xs ys zs : List α}

/-! ## One result -/

theorem mem_iff_of_filter_eq {a : α}
    (h : ys.filter (cmp a · = .eq) = zs.filter (cmp a · = .eq)) : a ∈ ys ↔ a ∈ zs := by
  have hclass : ∀ l : List α, a ∈ l ↔ a ∈ l.filter (cmp a · = .eq) := by
    simp [List.mem_filter, ReflCmp.compare_self]
  rw [hclass, h, ← hclass]

/-- Sorted lists are equal if they agree on each class of elements that compare equal. -/
theorem eq_of_sorted_of_filter_eq (hy : ys.Pairwise fun a b => cmp a b ≠ .gt)
    (hz : zs.Pairwise fun a b => cmp a b ≠ .gt)
    (h : ∀ a, ys.filter (cmp a · = .eq) = zs.filter (cmp a · = .eq)) : ys = zs := by
  induction ys generalizing zs with
  | nil =>
    refine (List.eq_nil_iff_forall_not_mem.mpr fun a ha => ?_).symm
    exact List.not_mem_nil ((mem_iff_of_filter_eq (h a)).mpr ha)
  | cons y ys ih =>
    cases zs with
    | nil => exact absurd ((mem_iff_of_filter_eq (h y)).mp List.mem_cons_self) List.not_mem_nil
    | cons z zs =>
      rw [List.pairwise_cons] at hy hz
      -- Each head comes before all elements of the other list, so that both are in one class.
      have hyz : cmp y z = .eq := by
        rcases List.mem_cons.mp ((mem_iff_of_filter_eq (h y)).mp List.mem_cons_self) with rfl | hin
        · exact ReflCmp.compare_self
        · rcases List.mem_cons.mp ((mem_iff_of_filter_eq (h z)).mpr List.mem_cons_self) with
            rfl | hin'
          · exact ReflCmp.compare_self
          · exact OrientedCmp.isLE_antisymm (Ordering.ne_gt_iff_isLE.mp (hy.1 z hin'))
              (Ordering.ne_gt_iff_isLE.mp (hz.1 y hin))
      obtain rfl : y = z := by
        have hheads := h y
        simp only [List.filter_cons, ReflCmp.compare_self, hyz, decide_true, if_true] at hheads
        exact (List.cons.inj hheads).1
      rw [ih hy.2 hz.2 fun a => ?_]
      have ha := h a
      simp only [List.filter_cons] at ha
      split at ha
      case isTrue => exact (List.cons.inj ha).2
      case isFalse => exact ha

theorem StablySorted.unique (hy : StablySorted cmp xs ys) (hz : StablySorted cmp xs zs) :
    ys = zs :=
  eq_of_sorted_of_filter_eq hy.sorted hz.sorted fun a => (hy.stable a).trans (hz.stable a).symm

theorem stablySorted_mergeSort (xs : List α) :
    StablySorted cmp xs (xs.mergeSort fun a b => cmp a b ≠ .gt) := by
  have htrans : ∀ a b c : α, decide (cmp a b ≠ .gt) → decide (cmp b c ≠ .gt) →
      decide (cmp a c ≠ .gt) := by
    simp only [decide_eq_true_eq, ne_eq, Ordering.ne_gt_iff_isLE]
    exact fun a b c => TransCmp.isLE_trans
  have htotal : ∀ a b : α, decide (cmp a b ≠ .gt) || decide (cmp b a ≠ .gt) := by
    intro a b
    rw [@OrientedCmp.eq_swap _ cmp _ b a]
    cases cmp a b <;> rfl
  have hperm := List.mergeSort_perm xs fun a b => decide (cmp a b ≠ .gt)
  refine ⟨hperm, ?_, fun a => ?_⟩
  · simpa using List.pairwise_mergeSort htrans htotal xs
  · -- A class is sorted as it stands, so it is a part of the sorted list, and it fills its class.
    have hclass : (xs.filter (cmp a · = .eq)).Pairwise fun b c => decide (cmp b c ≠ .gt) := by
      refine List.pairwise_iff_forall_sublist.mpr fun {b c} hsub => ?_
      have hb : cmp a b = .eq := by simpa using (List.mem_filter.mp (hsub.subset (by simp))).2
      have hc : cmp a c = .eq := by simpa using (List.mem_filter.mp (hsub.subset (by simp))).2
      have hbc : cmp b c = .eq := by rw [← TransCmp.congr_left hb, hc]
      simp [hbc]
    have hsub := (List.sublist_mergeSort htrans htotal hclass List.filter_sublist).filter
      (cmp a · = .eq)
    rw [List.filter_filter] at hsub
    simp only [Bool.and_self] at hsub
    exact (hsub.eq_of_length (hperm.filter _).length_eq.symm).symm

/-! ## Sorting parts -/

omit [TransCmp cmp] in
theorem StablySorted.filter (h : StablySorted cmp xs ys) (p : α → Bool) :
    StablySorted cmp (xs.filter p) (ys.filter p) := by
  refine ⟨h.perm.filter p, h.sorted.filter p, fun a => ?_⟩
  have hcomm : ∀ l : List α, (l.filter p).filter (cmp a · = .eq) =
      (l.filter (cmp a · = .eq)).filter p := by
    intro l
    simp only [List.filter_filter, Bool.and_comm]
  rw [hcomm, h.stable, ← hcomm]

theorem filter_mergeSort (xs : List α) (p : α → Bool) :
    (xs.mergeSort fun a b => cmp a b ≠ .gt).filter p =
      (xs.filter p).mergeSort fun a b => cmp a b ≠ .gt :=
  ((stablySorted_mergeSort xs).filter p).unique (stablySorted_mergeSort _)

omit [TransCmp cmp] in
theorem StablySorted.congr {cmp' : α → α → Ordering} [TransCmp cmp'] (h : StablySorted cmp xs ys)
    (hcmp : ∀ a ∈ xs, ∀ b ∈ xs, cmp a b = cmp' a b) : StablySorted cmp' xs ys := by
  have hmem : ∀ {a}, a ∈ ys → a ∈ xs := h.perm.mem_iff.mp
  refine ⟨h.perm, ?_, fun a => ?_⟩
  · refine h.sorted.imp_of_mem fun ha hb hab => ?_
    rwa [← hcmp _ (hmem ha) _ (hmem hb)]
  · by_cases hclass : ∃ b ∈ xs, cmp' a b = .eq
    · obtain ⟨b, hb, hab⟩ := hclass
      have hsame : ∀ x ∈ xs, decide (cmp' a x = .eq) = decide (cmp b x = .eq) := by
        intro x hx
        rw [TransCmp.congr_left hab, hcmp b hb x hx]
      rw [List.filter_congr fun x hx => hsame x (hmem hx), h.stable, List.filter_congr hsame]
    · simp only [not_exists, not_and] at hclass
      rw [List.filter_eq_nil_iff.mpr fun x hx => by simpa using hclass x (hmem hx),
        List.filter_eq_nil_iff.mpr fun x hx => by simpa using hclass x hx]

end

/-! ## Lists from several sources -/

section

variable {α β : Type} {xs : List α} {part part' : α → List β} {p : β → Bool}

theorem filter_flatMap_eq_part {R : α → α → Prop} [Symm R] {a : α} (hxs : xs.Pairwise R)
    (ha : a ∈ xs) (hown : ∀ y ∈ part a, p y) (hother : ∀ b, R b a → ∀ y ∈ part b, p y = false) :
    (xs.flatMap part).filter p = part a := by
  have hnone : ∀ {bs : List α}, (∀ b ∈ bs, R b a) → (bs.flatMap part).filter p = [] := by
    intro bs hbs
    refine List.filter_eq_nil_iff.mpr fun y hy => ?_
    obtain ⟨b, hb, hy⟩ := List.mem_flatMap.mp hy
    simp [hother b (hbs b hb) y hy]
  obtain ⟨before, after, rfl⟩ := List.append_of_mem ha
  rw [List.pairwise_append, List.pairwise_cons] at hxs
  obtain ⟨-, ⟨hafter, -⟩, hbefore⟩ := hxs
  rw [List.flatMap_append, List.flatMap_cons, List.filter_append, List.filter_append,
    hnone fun b hb => hbefore b hb a List.mem_cons_self,
    hnone fun b hb => Symm.symm _ _ (hafter b hb), List.filter_eq_self.mpr hown,
    List.nil_append, List.append_nil]

theorem filter_flatMap_congr (h : ∀ a ∈ xs, (part a).filter p = (part' a).filter p) :
    (xs.flatMap part).filter p = (xs.flatMap part').filter p := by
  rw [List.filter_flatMap, List.filter_flatMap]
  exact List.flatMap_congr h

end

end LayoutLint
