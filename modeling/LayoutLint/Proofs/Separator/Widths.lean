import LayoutLint.Proofs.Outline.WellFormed
import LayoutLint.Proofs.Separator.Partition
import LayoutLint.Proofs.Separator.SlashRuns
import Mathlib.Data.List.Sort

/-! # Wider separators

A group that holds a run of slashes holds every shorter one too, so a greater width leaves a part of
the separators. A separator less makes one bucket of two neighbouring ones and leaves the others as
they are, so the buckets that remain are runs of the former ones.
-/

namespace LayoutLint

/-! ## Merged lists -/

/-- The second row of lists is the first one with runs of neighbouring lists written as one. -/
def Merges {α : Type} (fine coarse : List (List α)) : Prop :=
  ∃ runs : List (List (List α)), (∀ run ∈ runs, run ≠ []) ∧ runs.flatten = fine ∧
    runs.map List.flatten = coarse

theorem exists_flatten_eq_of_map_eq {α β : Type} {f : α → β} {xs : List α} {pieces : List (List β)}
    (h : xs.map f = pieces.flatten) :
    ∃ cuts : List (List α), cuts.flatten = xs ∧ cuts.map (List.map f) = pieces := by
  induction pieces generalizing xs with
  | nil => exact ⟨[], (List.map_eq_nil_iff.mp h).symm, rfl⟩
  | cons piece pieces ih =>
    obtain ⟨cut, rest, rfl, hcut, hrest⟩ := List.map_eq_append_iff.mp h
    obtain ⟨cuts, rfl, rfl⟩ := ih hrest
    exact ⟨cut :: cuts, rfl, by rw [List.map_cons, hcut]⟩

namespace Merges

variable {α : Type} {as bs cs : List (List α)}

theorem refl (as : List (List α)) : Merges as as := by
  refine ⟨as.map fun a => [a], ?_, ?_, ?_⟩
  · intro run hrun
    obtain ⟨a, -, rfl⟩ := List.mem_map.mp hrun
    exact List.cons_ne_nil _ _
  · rw [← List.flatMap_def, List.flatMap_singleton']
  · simp [Function.comp_def]

theorem trans (h : Merges as bs) (h' : Merges bs cs) : Merges as cs := by
  obtain ⟨runs, hne, rfl, hruns⟩ := h
  obtain ⟨runs', hne', rfl, rfl⟩ := h'
  obtain ⟨cuts, rfl, rfl⟩ := exists_flatten_eq_of_map_eq hruns
  refine ⟨cuts.map List.flatten, ?_, List.flatten_flatten.symm, ?_⟩
  · intro run hrun
    obtain ⟨cut, hcut, rfl⟩ := List.mem_map.mp hrun
    have hcut_ne : cut ≠ [] := by simpa using hne' _ (List.mem_map_of_mem hcut)
    obtain ⟨first, hfirst⟩ := List.exists_mem_of_ne_nil cut hcut_ne
    have hfirst_ne := hne first (List.mem_flatten.mpr ⟨cut, hcut, hfirst⟩)
    exact fun hnil => hfirst_ne (List.flatten_eq_nil_iff.mp hnil first hfirst)
  · rw [List.map_map, List.map_map]
    exact List.map_congr_left fun cut _ => List.flatten_flatten

theorem pair (above below : List (List α)) (a b : List α) :
    Merges (above ++ a :: b :: below) (above ++ (a ++ b) :: below) := by
  obtain ⟨runs, hne, hruns, hruns'⟩ := refl above
  obtain ⟨runs', hne', hflat, hflat'⟩ := refl below
  refine ⟨runs ++ [a, b] :: runs', ?_, ?_, ?_⟩
  · intro run hrun
    rcases List.mem_append.mp hrun with hrun | hrun
    · exact hne run hrun
    · rcases List.mem_cons.mp hrun with rfl | hrun
      · exact List.cons_ne_nil _ _
      · exact hne' run hrun
  · simp [hruns, hflat]
  · simp [hruns', hflat']

theorem exists_infix (h : Merges as bs) {a : List α} (ha : a ∈ as) : ∃ b ∈ bs, a <:+: b := by
  obtain ⟨runs, -, rfl, rfl⟩ := h
  obtain ⟨run, hrun, harun⟩ := List.mem_flatten.mp ha
  obtain ⟨above, below, rfl⟩ := List.append_of_mem harun
  refine ⟨_, List.mem_map_of_mem hrun, above.flatten, below.flatten, ?_⟩
  rw [List.flatten_append, List.flatten_cons, List.append_assoc]

end Merges

namespace Separator

/-! ## One separator less -/

section

variable {separators : List Span} {decls : List Decl}

/-- The declarations that come after as many separators as the number says. -/
def bucketAt (separators : List Span) (decls : List Decl) (i : Nat) : List Decl :=
  decls.filter fun d => bucketIndex separators d.span.start = i

theorem partition_eq (separators : List Span) (decls : List Decl) :
    partition separators decls =
      (List.range (separators.length + 1)).map (bucketAt separators decls) := rfl

theorem bucketIndex_cons (s : Span) (separators : List Span) (offset : Nat) :
    bucketIndex (s :: separators) offset =
      bucketIndex separators offset + if s.stop ≤ offset then 1 else 0 := by
  simp [bucketIndex, List.countP_cons]

theorem partition_congr_perm {separators' : List Span} (h : separators.Perm separators')
    (decls : List Decl) : partition separators decls = partition separators' decls := by
  have hindex : bucketIndex separators = bucketIndex separators' :=
    funext fun offset => h.countP_eq _
  rw [partition, partition, h.length_eq, hindex]

theorem filter_eq_append_of_sorted (hsorted : decls.Pairwise fun d e => d.span.start ≤ e.span.start)
    (p : Decl → Bool) (offset : Nat) :
    decls.filter p = decls.filter (fun d => p d && d.span.start < offset) ++
      decls.filter (fun d => p d && offset ≤ d.span.start) := by
  induction decls with
  | nil => rfl
  | cons d decls ih =>
    obtain ⟨hd, hdecls⟩ := List.pairwise_cons.mp hsorted
    by_cases hlt : d.span.start < offset
    · have hle : ¬ offset ≤ d.span.start := Nat.not_le.mpr hlt
      cases hp : p d <;> simp [hp, hlt, hle, ih hdecls]
    · have hle : offset ≤ d.span.start := Nat.not_lt.mp hlt
      have hnone : decls.filter (fun e => p e && e.span.start < offset) = [] := by
        refine List.filter_eq_nil_iff.mpr fun e he => ?_
        have := hd e he
        simp [Nat.not_lt.mpr (Nat.le_trans hle this)]
      have hall := ih hdecls
      rw [hnone, List.nil_append] at hall
      cases hp : p d <;> simp [hp, hlt, hle, hnone, hall]

variable (s : Span)

theorem bucketAt_of_lt {i : Nat} (h : i < bucketIndex separators s.stop) :
    bucketAt (s :: separators) decls i = bucketAt separators decls i := by
  refine List.filter_congr fun d _ => ?_
  rw [bucketIndex_cons]
  by_cases hle : s.stop ≤ d.span.start
  · have := bucketIndex_mono separators hle
    rw [if_pos hle]
    simp only [decide_eq_decide]
    omega
  · rw [if_neg hle, Nat.add_zero]

theorem bucketAt_of_gt {i : Nat} (h : bucketIndex separators s.stop < i) :
    bucketAt (s :: separators) decls (i + 1) = bucketAt separators decls i := by
  refine List.filter_congr fun d _ => ?_
  rw [bucketIndex_cons]
  by_cases hle : s.stop ≤ d.span.start
  · rw [if_pos hle]
    simp only [decide_eq_decide]
    omega
  · have := bucketIndex_mono separators (Nat.le_of_lt (Nat.not_le.mp hle))
    rw [if_neg hle]
    simp only [decide_eq_decide]
    omega

/-- The separator cuts one bucket in two. -/
theorem bucketAt_eq_append (hsorted : decls.Pairwise fun d e => d.span.start ≤ e.span.start) :
    bucketAt separators decls (bucketIndex separators s.stop) =
      bucketAt (s :: separators) decls (bucketIndex separators s.stop) ++
        bucketAt (s :: separators) decls (bucketIndex separators s.stop + 1) := by
  rw [bucketAt, filter_eq_append_of_sorted hsorted _ s.stop]
  congr 1
  · refine List.filter_congr fun d _ => ?_
    rw [bucketIndex_cons]
    by_cases hle : s.stop ≤ d.span.start
    · have := bucketIndex_mono separators hle
      rw [if_pos hle, Bool.eq_iff_iff, Bool.and_eq_true]
      simp only [decide_eq_true_eq]
      omega
    · simp [hle, Nat.not_le.mp hle]
  · refine List.filter_congr fun d _ => ?_
    rw [bucketIndex_cons]
    by_cases hle : s.stop ≤ d.span.start
    · simp [hle]
    · have := bucketIndex_mono separators (Nat.le_of_lt (Nat.not_le.mp hle))
      rw [if_neg hle, Bool.eq_iff_iff, Bool.and_eq_true]
      simp only [decide_eq_true_eq]
      omega

theorem merges_partition_cons (hsorted : decls.Pairwise fun d e => d.span.start ≤ e.span.start) :
    Merges (partition (s :: separators) decls) (partition separators decls) := by
  obtain ⟨k, hk⟩ : ∃ k, bucketIndex separators s.stop = k := ⟨_, rfl⟩
  obtain ⟨m, hm⟩ := Nat.exists_eq_add_of_le (hk ▸ bucketIndex_le separators s.stop)
  have hrow (n : Nat) : List.range (k + (n + 1)) =
      List.range k ++ k :: (List.range n).map (k + 1 + ·) := by
    rw [List.range_add, List.range_succ_eq_map]
    simp [Function.comp_def, Nat.add_assoc, Nat.add_comm 1]
  have habove : (List.range k).map (bucketAt (s :: separators) decls) =
      (List.range k).map (bucketAt separators decls) :=
    List.map_congr_left fun i hi => bucketAt_of_lt s (hk ▸ List.mem_range.mp hi)
  have hbelow : (List.range m).map (fun i => bucketAt (s :: separators) decls (k + 1 + i + 1)) =
      (List.range m).map fun i => bucketAt separators decls (k + 1 + i) :=
    List.map_congr_left fun i _ => bucketAt_of_gt s (by omega)
  have hfine : partition (s :: separators) decls =
      (List.range k).map (bucketAt separators decls) ++
        bucketAt (s :: separators) decls k :: bucketAt (s :: separators) decls (k + 1) ::
          (List.range m).map fun i => bucketAt separators decls (k + 1 + i) := by
    rw [partition_eq, List.length_cons, hm, show k + m + 1 + 1 = k + (m + 1 + 1) by omega, hrow,
      List.map_append, habove, List.map_cons, List.map_map, List.range_succ_eq_map, List.map_cons,
      List.map_map, ← hbelow]
    rfl
  have hcoarse : partition separators decls =
      (List.range k).map (bucketAt separators decls) ++
        (bucketAt (s :: separators) decls k ++ bucketAt (s :: separators) decls (k + 1)) ::
          (List.range m).map fun i => bucketAt separators decls (k + 1 + i) := by
    rw [partition_eq, hm, Nat.add_assoc, hrow, List.map_append, List.map_cons, List.map_map]
    have hcut : bucketAt separators decls (bucketIndex separators s.stop) = _ :=
      bucketAt_eq_append s hsorted
    rw [hk] at hcut
    rw [hcut]
    rfl
  rw [hfine, hcoarse]
  exact .pair _ _ _ _

end

/-! ## Fewer separators -/

theorem merges_partition_append {separators : List Span} (more : List Span) {decls : List Decl}
    (hsorted : decls.Pairwise fun d e => d.span.start ≤ e.span.start) :
    Merges (partition (more ++ separators) decls) (partition separators decls) := by
  induction more with
  | nil => exact .refl _
  | cons s more ih => exact (merges_partition_cons s hsorted).trans ih

theorem merges_partition_of_sublist {few many : List Span} (h : few.Sublist many)
    {decls : List Decl} (hsorted : decls.Pairwise fun d e => d.span.start ≤ e.span.start) :
    Merges (partition many decls) (partition few decls) := by
  obtain ⟨more, hperm⟩ := h.exists_perm_append
  rw [partition_congr_perm (hperm.trans List.perm_append_comm)]
  exact merges_partition_append more hsorted

/-! ## Greater widths -/

theorem containsText_of_width_le {narrow wide : Options} (h : narrow.width ≤ wide.width)
    {cs : List Char} (hcs : containsText wide.token.toList cs = true) :
    containsText narrow.token.toList cs = true := by
  rw [containsText_iff, Options.token, String.toList_ofList] at hcs ⊢
  have hshort : List.replicate narrow.width '/' <+: List.replicate wide.width '/' := by
    rw [← Nat.add_sub_cancel' h, ← List.replicate_append_replicate]
    exact List.prefix_append _ _
  exact hshort.isInfix.trans hcs

instance : Std.Antisymm fun s s' : Span => s.le s' = true where
  antisymm s s' h h' := by
    rw [Span.le_iff] at h h'
    cases s
    cases s'
    simp only [Span.mk.injEq] at h h' ⊢
    omega

theorem separators_sublist_of_width_le {narrow wide : Options} (h : narrow.width ≤ wide.width)
    (t : SourceText) (comments : List Comment) :
    (separators t wide comments).Sublist (separators t narrow comments) := by
  have hgroups : ((groups t comments).filter fun g => containsText wide.token.toList g.text).Sublist
      ((groups t comments).filter fun g => containsText narrow.token.toList g.text) :=
    List.monotone_filter_right _ fun g => containsText_of_width_le h
  refine List.sublist_of_subperm_of_pairwise (r := fun s s' : Span => s.le s' = true) ?_
    (pairwise_mergeSort_span id _) (pairwise_mergeSort_span id _)
  exact (List.mergeSort_perm _ _).subperm.trans
    ((hgroups.map Group.span).subperm.trans (List.mergeSort_perm _ _).symm.subperm)

/-- A greater width keeps some of the separators in their order. The buckets between those that are
kept are runs of the former buckets, each run written as one, so declarations that shared a bucket
still do. -/
theorem separators_of_width_le (t : SourceText) (narrow wide : Options)
    (hwidth : narrow.width ≤ wide.width) (comments : List Comment) (decls : List Decl)
    (hsorted : decls.Pairwise fun d e => d.span.start ≤ e.span.start) :
    (separators t wide comments).Sublist (separators t narrow comments) ∧
      Merges (partition (separators t narrow comments) decls)
        (partition (separators t wide comments) decls) ∧
      ∀ bucket ∈ partition (separators t narrow comments) decls, ∀ d ∈ bucket, ∀ e ∈ bucket,
        ∃ bucket' ∈ partition (separators t wide comments) decls, d ∈ bucket' ∧ e ∈ bucket' := by
  have hsublist := separators_sublist_of_width_le hwidth t comments
  have hmerges := merges_partition_of_sublist hsublist hsorted
  refine ⟨hsublist, hmerges, fun bucket hbucket d hd e he => ?_⟩
  obtain ⟨bucket', hbucket', hinfix⟩ := hmerges.exists_infix hbucket
  exact ⟨bucket', hbucket', hinfix.subset hd, hinfix.subset he⟩

def unequalText : SourceText := { chars := "////\n\nvar x int\n\n//\n\nvar y int\n".toList }

def unequalComments : List Comment := [⟨⟨0, 4⟩, "////"⟩, ⟨⟨17, 19⟩, "//"⟩]

def unequalDecls : List Decl := [.gen ⟨6, 15⟩ .vars [], .gen ⟨21, 30⟩ .vars []]

theorem separators_of_width_le_unequal :
    separators unequalText { width := 2 } unequalComments = [⟨0, 4⟩, ⟨17, 19⟩] ∧
      separators unequalText { width := 4 } unequalComments = [⟨0, 4⟩] ∧
      Merges [[], [.gen ⟨6, 15⟩ .vars []], [.gen ⟨21, 30⟩ .vars []]] [[], unequalDecls] := by
  have hcs : InOrder unequalComments := ⟨by decide, by decide⟩
  have hnarrow : separators unequalText { width := 2 } unequalComments = [⟨0, 4⟩, ⟨17, 19⟩] := by
    rw [separators_eq hcs]
    decide +kernel
  have hwide : separators unequalText { width := 4 } unequalComments = [⟨0, 4⟩] := by
    rw [separators_eq hcs]
    decide +kernel
  have hmerges := (separators_of_width_le unequalText { width := 2 } { width := 4 } (by decide)
    unequalComments unequalDecls (by decide)).2.1
  rw [hnarrow, hwide] at hmerges
  exact ⟨hnarrow, hwide, hmerges⟩

end Separator

end LayoutLint
