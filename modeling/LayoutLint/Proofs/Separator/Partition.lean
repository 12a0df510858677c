import LayoutLint.Proofs.Source.Pieces
import LayoutLint.Rules.Separator.Groups
import Mathlib.Data.List.Basic

/-! # Buckets of declarations

A declaration goes to the bucket whose number is the count of the separators that end before it. So
the buckets share out the declarations, whatever the separators are and in whatever order they come.
Where separators and declarations stand in the order of the text, the buckets are the sections of
that text: the declarations between the end of one separator and the end of the next.
-/

namespace LayoutLint.Separator

variable {separators : List Span} {buckets : List (List Decl)} {decls : List Decl} {d : Decl}

theorem bucketIndex_le (separators : List Span) (offset : Nat) :
    bucketIndex separators offset ≤ separators.length := List.countP_le_length

theorem bucketIndex_mono (separators : List Span) {a b : Nat} (h : a ≤ b) :
    bucketIndex separators a ≤ bucketIndex separators b := by
  apply List.countP_mono_left
  intro s _ hs
  rw [decide_eq_true_eq] at hs ⊢
  exact Nat.le_trans hs h

theorem mem_bucket_iff {i : Nat} {bucket : List Decl}
    (h : (partition separators decls)[i]? = some bucket) :
    d ∈ bucket ↔ d ∈ decls ∧ bucketIndex separators d.span.start = i := by
  rw [partition, List.getElem?_map, Option.map_eq_some_iff] at h
  obtain ⟨j, hj, rfl⟩ := h
  obtain ⟨hlt, rfl⟩ := List.getElem?_eq_some_iff.mp hj
  rw [List.getElem_range]
  rw [List.mem_filter, decide_eq_true_eq]

/-! ## One declaration after another -/

def place (separators : List Span) (buckets : List (List Decl)) (d : Decl) : List (List Decl) :=
  buckets.modify (bucketIndex separators d.span.start) (· ++ [d])

@[simp] theorem length_place : (place separators buckets d).length = buckets.length :=
  List.length_modify _ _ _

/-- Each bucket gains the declarations that come after as many separators as come before it. -/
theorem foldl_place (separators : List Span) (buckets : List (List Decl)) (decls : List Decl) :
    decls.foldl (place separators) buckets = buckets.mapIdx fun i bucket =>
      bucket ++ decls.filter fun d => bucketIndex separators d.span.start = i := by
  induction decls generalizing buckets with
  | nil =>
    ext1 i
    simp
  | cons d decls ih =>
    rw [List.foldl_cons, ih]
    ext1 i
    simp only [List.getElem?_mapIdx, place, List.getElem?_modify]
    cases buckets[i]? with
    | none => simp
    | some bucket =>
      by_cases hi : bucketIndex separators d.span.start = i
      · simp [hi]
      · simp [hi]

theorem partition_eq_foldl (separators : List Span) (decls : List Decl) :
    partition separators decls =
      decls.foldl (place separators) (List.replicate (separators.length + 1) []) := by
  rw [foldl_place, partition]
  refine List.ext_getElem (by simp) fun i h₁ h₂ => ?_
  simp

theorem length_lt_length_replicate (separators : List Span) :
    separators.length < (List.replicate (separators.length + 1) ([] : List Decl)).length := by
  rw [List.length_replicate]
  exact Nat.lt_succ_self _

theorem exists_append_of_lt (h : bucketIndex separators d.span.start < buckets.length) :
    ∃ above bucket below, buckets = above ++ bucket :: below ∧
      above.length = bucketIndex separators d.span.start ∧
      place separators buckets d = above ++ (bucket ++ [d]) :: below := by
  refine ⟨buckets.take _, buckets[bucketIndex separators d.span.start], buckets.drop _, ?_,
    List.length_take_of_le (Nat.le_of_lt h), List.modify_eq_take_cons_drop h⟩
  rw [List.getElem_cons_drop, List.take_append_drop]

theorem flatten_place_perm (h : bucketIndex separators d.span.start < buckets.length) :
    (place separators buckets d).flatten.Perm (d :: buckets.flatten) := by
  obtain ⟨above, bucket, below, rfl, -, hplace⟩ := exists_append_of_lt h
  rw [hplace]
  simp only [List.flatten_append, List.flatten_cons, List.append_assoc, List.singleton_append]
  calc above.flatten ++ (bucket ++ d :: below.flatten)
      = above.flatten ++ bucket ++ d :: below.flatten := (List.append_assoc _ _ _).symm
    _ |>.Perm (d :: (above.flatten ++ bucket ++ below.flatten)) := List.perm_middle
    _ = d :: (above.flatten ++ (bucket ++ below.flatten)) := by rw [List.append_assoc]

theorem flatten_foldl_place_perm (decls : List Decl) (h : separators.length < buckets.length) :
    (decls.foldl (place separators) buckets).flatten.Perm (decls ++ buckets.flatten) := by
  induction decls generalizing buckets with
  | nil => exact .refl _
  | cons d decls ih =>
    have hplace := flatten_place_perm (d := d) (Nat.lt_of_le_of_lt (bucketIndex_le _ _) h)
    calc (decls.foldl (place separators) (place separators buckets d)).flatten
      _ |>.Perm (decls ++ (place separators buckets d).flatten) := ih (by rwa [length_place])
      _ |>.Perm (decls ++ d :: buckets.flatten) := hplace.append_left decls
      _ |>.Perm (d :: (decls ++ buckets.flatten)) := List.perm_middle

/-- No bucket after the numbered one holds anything. -/
def EmptyAfter (n : Nat) (buckets : List (List Decl)) : Prop := (buckets.drop (n + 1)).flatten = []

theorem EmptyAfter.mono {m n : Nat} (h : EmptyAfter m buckets) (hle : m ≤ n) :
    EmptyAfter n buckets := by
  unfold EmptyAfter at *
  rw [List.flatten_eq_nil_iff] at *
  intro bucket hbucket
  exact h bucket ((List.drop_sublist_drop_left buckets (by omega)).subset hbucket)

theorem flatten_place (hlt : bucketIndex separators d.span.start < buckets.length)
    (h : EmptyAfter (bucketIndex separators d.span.start) buckets) :
    (place separators buckets d).flatten = buckets.flatten ++ [d] ∧
      EmptyAfter (bucketIndex separators d.span.start) (place separators buckets d) := by
  obtain ⟨above, bucket, below, rfl, habove, hplace⟩ := exists_append_of_lt hlt
  unfold EmptyAfter at *
  rw [← habove, List.drop_length_add_append] at h
  rw [hplace, ← habove, List.drop_length_add_append]
  have hbelow : below.flatten = [] := h
  constructor
  · simp [hbelow]
  · exact hbelow

theorem flatten_foldl_place {n : Nat} (hlt : separators.length < buckets.length)
    (hsorted : decls.Pairwise fun d e => d.span.start ≤ e.span.start)
    (hn : ∀ d ∈ decls, n ≤ bucketIndex separators d.span.start) (h : EmptyAfter n buckets) :
    (decls.foldl (place separators) buckets).flatten = buckets.flatten ++ decls := by
  induction decls generalizing buckets n with
  | nil => exact (List.append_nil _).symm
  | cons d decls ih =>
    obtain ⟨hd, hdecls⟩ := List.pairwise_cons.mp hsorted
    obtain ⟨hflatten, hempty⟩ := flatten_place (Nat.lt_of_le_of_lt (bucketIndex_le _ _) hlt)
      (h.mono (hn d List.mem_cons_self))
    have hnext : ∀ e ∈ decls, bucketIndex separators d.span.start ≤
        bucketIndex separators e.span.start := fun e he => bucketIndex_mono separators (hd e he)
    rw [List.foldl_cons, ih (by rwa [length_place]) hdecls hnext hempty, hflatten,
      List.append_assoc, List.singleton_append]

/-! ## Sections of the text -/

/-- The separator with which the section of the number begins. -/
def opening? (separators : List Span) : Nat → Option Span
  | 0 => none
  | i + 1 => separators[i]?

/-- The offset is in the section of the number: not before the end of the separator with which it
begins, and before the end of the next one. -/
def inSection (separators : List Span) (i offset : Nat) : Bool :=
  (opening? separators i).all (·.stop ≤ offset) && separators[i]?.all (offset < ·.stop)

/-- Where the separators end one after the other, those that end before an offset come first. -/
theorem bucketIndex_eq_iff {i offset : Nat}
    (hstops : separators.Pairwise fun s s' => s.stop ≤ s'.stop) (hi : i ≤ separators.length) :
    bucketIndex separators offset = i ↔ inSection separators i offset = true := by
  induction separators generalizing i with
  | nil =>
    obtain rfl : i = 0 := Nat.le_zero.mp hi
    simp [bucketIndex, inSection, opening?]
  | cons s ss ih =>
    obtain ⟨hs, hss⟩ := List.pairwise_cons.mp hstops
    by_cases hle : s.stop ≤ offset
    · have hindex : bucketIndex (s :: ss) offset = bucketIndex ss offset + 1 := by
        simp [bucketIndex, hle]
      cases i with
      | zero => simp [hindex, inSection, hle]
      | succ i =>
        have hsection : inSection (s :: ss) (i + 1) offset = inSection ss i offset := by
          cases i <;> simp [inSection, opening?, hle]
        rw [hindex, Nat.add_right_cancel_iff, ih hss (Nat.le_of_succ_le_succ hi), hsection]
    · have hlater : ∀ s' ∈ s :: ss, offset < s'.stop := by
        refine List.forall_mem_cons.mpr ⟨by omega, fun s' hs' => ?_⟩
        exact Nat.lt_of_lt_of_le (by omega) (hs s' hs')
      have hindex : bucketIndex (s :: ss) offset = 0 := by
        apply List.countP_eq_zero.mpr
        simpa using hlater
      cases i with
      | zero => simpa [hindex, inSection, opening?] using hlater s List.mem_cons_self
      | succ i =>
        have hopening : (s :: ss)[i]? = some (s :: ss)[i] := List.getElem?_eq_getElem hi
        have hafter := Nat.not_le.mpr (hlater _ (List.getElem_mem hi))
        simp [hindex, inSection, opening?, hopening, hafter]

/-! ## The buckets of a list -/

@[simp] theorem length_partition (separators : List Span) (decls : List Decl) :
    (partition separators decls).length = separators.length + 1 := by
  rw [partition, List.length_map, List.length_range]

theorem flatten_partition_perm (separators : List Span) (decls : List Decl) :
    (partition separators decls).flatten.Perm decls := by
  rw [partition_eq_foldl]
  have hperm := flatten_foldl_place_perm decls (length_lt_length_replicate separators)
  rwa [List.flatten_replicate_nil, List.append_nil] at hperm

theorem flatten_partition (separators : List Span)
    (hsorted : decls.Pairwise fun d e => d.span.start ≤ e.span.start) :
    (partition separators decls).flatten = decls := by
  have hempty : EmptyAfter 0 (List.replicate (separators.length + 1) []) := by
    rw [EmptyAfter, List.drop_replicate, List.flatten_replicate_nil]
  rw [partition_eq_foldl, flatten_foldl_place (length_lt_length_replicate separators) hsorted
    (fun _ _ => Nat.zero_le _) hempty, List.flatten_replicate_nil, List.nil_append]

theorem existsUnique_bucket (separators : List Span) (hd : d ∈ decls) :
    ∃! i : Nat, ∃ bucket, (partition separators decls)[i]? = some bucket ∧ d ∈ bucket := by
  have hlt : bucketIndex separators d.span.start < (partition separators decls).length := by
    rw [length_partition]
    exact Nat.lt_succ_of_le (bucketIndex_le _ _)
  have hget := List.getElem?_eq_getElem hlt
  refine ⟨_, ⟨_, hget, (mem_bucket_iff hget).mpr ⟨hd, rfl⟩⟩, ?_⟩
  rintro i ⟨bucket, hbucket, hmem⟩
  exact ((mem_bucket_iff hbucket).mp hmem).2.symm

theorem getElem?_partition {i : Nat}
    (hstops : separators.Pairwise fun s s' => s.stop ≤ s'.stop) (hi : i ≤ separators.length) :
    (partition separators decls)[i]? =
      some (decls.filter fun d => inSection separators i d.span.start) := by
  rw [partition, List.getElem?_map, List.getElem?_range (Nat.lt_succ_of_le hi), Option.map_some]
  refine congrArg some (List.filter_congr fun d _ => ?_)
  rw [Bool.eq_iff_iff, decide_eq_true_eq, bucketIndex_eq_iff hstops hi]

/-- The separators cut the declarations into one bucket more than there are separators. Each
declaration is in one of them, and each bucket has its declarations in their order. If separators
and declarations stand in the order of the text, the buckets one after the other are the
declarations, and each bucket holds those of its section. -/
theorem partition_shares_out (separators : List Span) (decls : List Decl) :
    (partition separators decls).length = separators.length + 1 ∧
      (partition separators decls).flatten.Perm decls ∧
      (∀ d ∈ decls,
        ∃! i : Nat, ∃ bucket, (partition separators decls)[i]? = some bucket ∧ d ∈ bucket) ∧
      (∀ bucket ∈ partition separators decls, bucket.Sublist decls) ∧
      ((∀ s ∈ separators, s.start ≤ s.stop) → separators.Pairwise Span.Precedes →
        (decls.Pairwise fun d e => d.span.start ≤ e.span.start) →
        (partition separators decls).flatten = decls ∧
          ∀ i ≤ separators.length, (partition separators decls)[i]? =
            some (decls.filter fun d => inSection separators i d.span.start)) := by
  refine ⟨length_partition _ _, flatten_partition_perm _ _, ?_, ?_, ?_⟩
  · intro d hd
    exact existsUnique_bucket separators hd
  · intro bucket hbucket
    obtain ⟨i, -, rfl⟩ := List.mem_map.mp hbucket
    exact List.filter_sublist
  · intro hspans hordered hsorted
    refine ⟨flatten_partition separators hsorted, fun i hi => ?_⟩
    exact getElem?_partition (pairwise_stop_le id hspans hordered) hi

def touchingSeparators : List Span := [⟨10, 14⟩, ⟨30, 34⟩]

def touchingDecls : List Decl :=
  [.unrecognized ⟨0, 2⟩ "x", .unrecognized ⟨14, 16⟩ "x", .unrecognized ⟨20, 22⟩ "x",
    .unrecognized ⟨40, 42⟩ "x"]

theorem partition_shares_out_touching :
    (∀ s ∈ touchingSeparators, s.start ≤ s.stop) ∧ touchingSeparators.Pairwise Span.Precedes ∧
      (touchingDecls.Pairwise fun d e => d.span.start ≤ e.span.start) ∧
      (partition touchingSeparators touchingDecls).flatten = touchingDecls ∧
      (partition touchingSeparators touchingDecls)[1]? =
        some [.unrecognized ⟨14, 16⟩ "x", .unrecognized ⟨20, 22⟩ "x"] := by
  have hspans : ∀ s ∈ touchingSeparators, s.start ≤ s.stop := by decide
  have hordered : touchingSeparators.Pairwise Span.Precedes := by decide
  have hsorted : touchingDecls.Pairwise fun d e => d.span.start ≤ e.span.start := by decide
  obtain ⟨hflatten, hbuckets⟩ :=
    (partition_shares_out touchingSeparators touchingDecls).2.2.2.2 hspans hordered hsorted
  exact ⟨hspans, hordered, hsorted, hflatten, hbuckets 1 (by decide)⟩

end LayoutLint.Separator
