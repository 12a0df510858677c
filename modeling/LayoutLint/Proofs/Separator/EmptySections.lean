import LayoutLint.Proofs.Separator.Neighbours
import LayoutLint.Proofs.Separator.Partition

/-! # Sections without declarations

Two neighbouring separators are reported if no declaration stands strictly between them, so one that
touches a separator does not count. Buckets count it. The two agree on declarations that touch no
separator: a declaration with a text of its own cannot begin within a group of comments.
-/

namespace LayoutLint

/-- No byte is in both spans. -/
def Span.Disjoint (s t : Span) : Prop :=
  ∀ x, ¬ (s.start ≤ x ∧ x < s.stop ∧ t.start ≤ x ∧ x < t.stop)

theorem Span.disjoint_iff {s t : Span} :
    s.Disjoint t ↔ min s.stop t.stop ≤ max s.start t.start := by
  constructor
  · intro h
    have hlater := h (max s.start t.start)
    omega
  · rintro h x ⟨hs, hs', ht, ht'⟩
    omega

instance (s t : Span) : Decidable (s.Disjoint t) := decidable_of_iff _ Span.disjoint_iff.symm

theorem Span.Disjoint.symm {s t : Span} (h : s.Disjoint t) : t.Disjoint s :=
  fun x hx => h x ⟨hx.2.2.1, hx.2.2.2, hx.1, hx.2.1⟩

/-- Something other than blanks stands at the span. -/
def Span.HoldsText (cs : List Char) (s : Span) : Prop :=
  ∃ text, Text.slice? cs s.start s.stop = some text ∧ ∃ c ∈ text, Text.isBlank c = false

theorem Span.HoldsText.start_lt_stop {cs : List Char} {s : Span} (h : s.HoldsText cs) :
    s.start < s.stop := by
  obtain ⟨text, hslice, c, hc, -⟩ := h
  have hlength := Text.byteLength_of_slice? hslice
  have hpos : 0 < Text.byteLength text := by
    refine Nat.pos_of_ne_zero fun hzero => ?_
    rw [Text.eq_nil_of_byteLength_eq_zero hzero] at hc
    cases hc
  omega

namespace Separator

variable {t : SourceText}

/-! ## Between two separators -/

/-- The declaration stands between the two separators and touches neither. -/
def StrictlyBetween (current next : Span) (d : Decl) : Prop :=
  current.stop < d.span.start ∧ d.span.stop < next.start

instance (current next : Span) (d : Decl) : Decidable (StrictlyBetween current next d) :=
  inferInstanceAs (Decidable (_ ∧ _))

theorem hasDeclBetween_eq_false_iff {decls : List Decl} {current next : Span} :
    hasDeclBetween decls current next = false ↔ ∀ d ∈ decls, ¬ StrictlyBetween current next d := by
  simp only [hasDeclBetween, List.any_eq_false, Bool.and_eq_true, decide_eq_true_eq,
    StrictlyBetween]

theorem emptyBetween_mem_iff {l : Layout} {i : Nat} {current next : Span}
    (hcurrent : l.separators[i]? = some current) (hnext : l.separators[i + 1]? = some next) :
    emptyBetween current next ∈ emptySectionFindings l ↔
      ∀ d ∈ l.decls, ¬ StrictlyBetween current next d := by
  rw [← hasDeclBetween_eq_false_iff, emptySectionFindings, List.mem_filterMap]
  constructor
  · rintro ⟨⟨a, b⟩, -, hab⟩
    simp only [emptySection?, emptyBetween, Option.ite_none_left_eq_some, Option.some.injEq,
      Finding.mk.injEq, Span.mk.injEq, Bool.not_eq_true, and_true] at hab
    obtain ⟨hnone, hstop, hstart⟩ := hab
    simpa only [hasDeclBetween, hstop, hstart] using hnone
  · intro hnone
    refine ⟨(current, next), ?_, ?_⟩
    · refine List.mem_of_getElem? (List.getElem?_zip_eq_some.mpr ⟨hcurrent, ?_⟩)
      rwa [List.getElem?_tail]
    · simp only [emptySection?, hnone, Bool.false_eq_true, if_false]

theorem emptyBetween_mem_of_iff {options : Options} {o : Outline} {i : Nat} {current next : Span}
    (hcurrent : (separators t options o.comments)[i]? = some current)
    (hnext : (separators t options o.comments)[i + 1]? = some next) :
    emptyBetween current next ∈ emptySectionFindings (Layout.of t options o) ↔
      ∀ d ∈ o.decls, ¬ StrictlyBetween current next d := by
  have hmem : ∀ d, d ∈ (Layout.of t options o).decls ↔ d ∈ o.decls := fun d => List.mem_mergeSort
  rw [emptyBetween_mem_iff (l := Layout.of t options o) hcurrent hnext]
  simp only [hmem]

section

variable {separators : List Span} {i : Nat} {current next : Span} {d : Decl}

theorem pairwise_stop_le_of_clear (h : separators.Pairwise Clear) :
    separators.Pairwise fun s s' => s.stop ≤ s'.stop :=
  h.imp fun hclear => Nat.le_trans (Nat.le_of_lt hclear.between) hclear.right

theorem clear_of_getElem? (h : separators.Pairwise Clear) (hcurrent : separators[i]? = some current)
    (hnext : separators[i + 1]? = some next) : Clear current next := by
  obtain ⟨hi, rfl⟩ := List.getElem?_eq_some_iff.mp hcurrent
  obtain ⟨hi', rfl⟩ := List.getElem?_eq_some_iff.mp hnext
  exact List.pairwise_iff_getElem.mp h i (i + 1) hi hi' (Nat.lt_succ_self i)

theorem bucketIndex_eq_succ_iff (h : separators.Pairwise Clear)
    (hcurrent : separators[i]? = some current) (hnext : separators[i + 1]? = some next)
    {offset : Nat} :
    bucketIndex separators offset = i + 1 ↔ current.stop ≤ offset ∧ offset < next.stop := by
  obtain ⟨hi, -⟩ := List.getElem?_eq_some_iff.mp hnext
  rw [bucketIndex_eq_iff (pairwise_stop_le_of_clear h) (Nat.le_of_lt hi)]
  simp [inSection, opening?, hcurrent, hnext]

/-- Some declaration stands strictly between two separators exactly if one of their section does. -/
theorem forall_bucket_iff (h : separators.Pairwise Clear)
    (hcurrent : separators[i]? = some current) (hnext : separators[i + 1]? = some next)
    {decls bucket : List Decl} (hdecls : ∀ d ∈ decls, d.span.start ≤ d.span.stop)
    (hbucket : (partition separators decls)[i + 1]? = some bucket) :
    (∀ d ∈ decls, ¬ StrictlyBetween current next d) ↔
      ∀ d ∈ bucket, ¬ StrictlyBetween current next d := by
  constructor
  · intro hnone d hd
    exact hnone d ((mem_bucket_iff hbucket).mp hd).1
  · rintro hnone d hd ⟨hstart, hstop⟩
    have hclear := clear_of_getElem? h hcurrent hnext
    have hproper := hdecls d hd
    have hright := hclear.right
    have hindex := (bucketIndex_eq_succ_iff h hcurrent hnext).mpr
      (⟨by omega, by omega⟩ : current.stop ≤ d.span.start ∧ d.span.start < next.stop)
    exact hnone d ((mem_bucket_iff hbucket).mpr ⟨hd, hindex⟩) ⟨hstart, hstop⟩

end

/-! ## Declarations and comments -/

section

variable {s : Span} {m : Comment} {ms : List Comment}

theorem stop_le_start_of_disjoint {s s' : Span} (hs : s.start < s.stop) (hs' : s'.start < s'.stop)
    (h : s.Disjoint s') (hlt : s.start < s'.stop) : s.stop ≤ s'.start := by
  rw [Span.disjoint_iff] at h
  omega

/-- A text that starts before the end of a group of comments also ends before the group, as only
blanks stand within the group. -/
theorem stop_le_start_of_isChain (hchain : (m :: ms).IsChain fun c d =>
      ∃ between, Text.slice? t.chars c.span.stop d.span.start = some between ∧
        ∀ x ∈ between, Text.isBlank x = true)
    (hne : ∀ c ∈ m :: ms, c.span.start < c.span.stop)
    (hdisjoint : ∀ c ∈ m :: ms, s.Disjoint c.span) (hs : s.HoldsText t.chars)
    (hlt : s.start < ((m :: ms).getLast (List.cons_ne_nil m ms)).span.stop) :
    s.stop ≤ m.span.start := by
  have hm := stop_le_start_of_disjoint hs.start_lt_stop (hne m List.mem_cons_self)
    (hdisjoint m List.mem_cons_self)
  induction ms generalizing m with
  | nil => exact hm hlt
  | cons m' ms ih =>
    by_cases hstart : s.start < m.span.stop
    · exact hm hstart
    · -- The text would lie between two comments of the group.
      obtain ⟨⟨between, hbetween, hblank⟩, hrest⟩ := List.isChain_cons_cons.mp hchain
      have hstop : s.stop ≤ m'.span.start := ih hrest
        (fun c hc => hne c (List.mem_cons_of_mem m hc))
        (fun c hc => hdisjoint c (List.mem_cons_of_mem m hc)) hlt
        (stop_le_start_of_disjoint hs.start_lt_stop (hne m' (by simp)) (hdisjoint m' (by simp)))
      obtain ⟨text, htext, c, hc, hcode⟩ := hs
      have hsub := Text.subset_of_slice? htext hbetween (by omega) hstop
      rw [hblank c (hsub hc)] at hcode
      cases hcode

variable {comments : List Comment}

theorem exists_cluster_of_mem_separators (h : InOrder comments) {o : Options} {s : Span}
    (hs : s ∈ separators t o comments) :
    ∃ k ∈ clusters t comments, s = ⟨k.first.span.start, k.last.span.stop⟩ := by
  rw [separators_eq h, ← map_group_clusters] at hs
  obtain ⟨g, hg, rfl⟩ := List.mem_map.mp hs
  obtain ⟨k, hk, rfl⟩ := List.mem_map.mp (List.mem_of_mem_filter hg)
  exact ⟨k, hk, (k.span_group t).1⟩

theorem stop_le_start_of_mem_separators (h : LaidIn t comments) {o : Options} {separator : Span}
    (hseparator : separator ∈ separators t o comments)
    (hne : ∀ c ∈ comments, c.span.start < c.span.stop)
    (hdisjoint : ∀ c ∈ comments, s.Disjoint c.span) (hs : s.HoldsText t.chars)
    (hlt : s.start < separator.stop) : s.stop ≤ separator.start := by
  obtain ⟨k, hk, rfl⟩ := exists_cluster_of_mem_separators h.toInOrder hseparator
  have hmember : ∀ c ∈ k.members, c ∈ comments := fun c hc => (members_sublist hk).subset hc
  refine stop_le_start_of_isChain ((isChain_members h hk).imp ?_)
    (fun c hc => hne c (hmember c hc)) (fun c hc => hdisjoint c (hmember c hc)) hs hlt
  rintro c d ⟨between, hbetween, hblank, -⟩
  exact ⟨between, hbetween, hblank⟩

end

/-! ## Reports and buckets -/

/-- Two neighbouring separators are reported exactly if no declaration of the bucket between them
stands strictly between them. If all comments have a byte, and declarations have a text and share no
byte with a comment, this means that each declaration of the bucket starts where the first separator
ends or ends where the second starts. -/
theorem emptyBetween_mem_iff_bucket (t : SourceText) (options : Options) (o : Outline)
    (hcomments : InOrder o.comments) (hdecls : ∀ d ∈ o.decls, d.span.start ≤ d.span.stop) (i : Nat)
    (current next : Span) (hcurrent : (separators t options o.comments)[i]? = some current)
    (hnext : (separators t options o.comments)[i + 1]? = some next) :
    ∃ bucket, (partition (separators t options o.comments) o.decls)[i + 1]? = some bucket ∧
      (emptyBetween current next ∈ emptySectionFindings (Layout.of t options o) ↔
        ∀ d ∈ bucket, ¬ StrictlyBetween current next d) ∧
      ((∀ c ∈ o.comments, c.span.Inside t.chars ∧ c.span.start < c.span.stop) →
        (∀ d ∈ o.decls, d.span.HoldsText t.chars ∧ ∀ c ∈ o.comments, d.span.Disjoint c.span) →
        (emptyBetween current next ∈ emptySectionFindings (Layout.of t options o) ↔
          ∀ d ∈ bucket, d.span.start = current.stop ∨ d.span.stop = next.start)) := by
  have hclear := pairwise_separators (t := t) hcomments options
  obtain ⟨hi, -⟩ := List.getElem?_eq_some_iff.mp hnext
  obtain ⟨bucket, hbucket⟩ : ∃ bucket,
      (partition (separators t options o.comments) o.decls)[i + 1]? = some bucket :=
    ⟨_, getElem?_partition (pairwise_stop_le_of_clear hclear) (Nat.le_of_lt hi)⟩
  have hreport : emptyBetween current next ∈ emptySectionFindings (Layout.of t options o) ↔
      ∀ d ∈ bucket, ¬ StrictlyBetween current next d :=
    (emptyBetween_mem_of_iff hcurrent hnext).trans
      (forall_bucket_iff hclear hcurrent hnext hdecls hbucket)
  refine ⟨bucket, hbucket, hreport, fun hinside htexts => hreport.trans ?_⟩
  have hlaid : LaidIn t o.comments := ⟨hcomments, fun c hc => (hinside c hc).1⟩
  refine forall_congr' fun d => forall_congr' fun hd => ?_
  obtain ⟨hmem, hindex⟩ := (mem_bucket_iff hbucket).mp hd
  obtain ⟨hstart, hlt⟩ := (bucketIndex_eq_succ_iff hclear hcurrent hnext).mp hindex
  obtain ⟨htext, hdisjoint⟩ := htexts d hmem
  have hstop := stop_le_start_of_mem_separators hlaid (List.mem_of_getElem? hnext)
    (fun c hc => (hinside c hc).2) hdisjoint htext hlt
  unfold StrictlyBetween
  omega

def attachedText : SourceText :=
  { chars := "package a\n\n/*////*/var x int\n\n////\n\nvar y int\n".toList }

def attachedOutline : Outline where
  package := ⟨0, 9⟩
  comments := [⟨⟨11, 19⟩, "/*////*/"⟩, ⟨⟨30, 34⟩, "////"⟩]
  decls := [.gen ⟨19, 28⟩ .vars [], .gen ⟨36, 45⟩ .vars []]

theorem inOrder_attached : InOrder attachedOutline.comments := ⟨by decide, by decide⟩

theorem separators_attached :
    separators attachedText { width := 4 } attachedOutline.comments = [⟨11, 19⟩, ⟨30, 34⟩] := by
  rw [separators_eq inOrder_attached]
  decide +kernel

theorem emptyBetween_mem_iff_bucket_attached :
    InOrder attachedOutline.comments ∧
      separators attachedText { width := 4 } attachedOutline.comments = [⟨11, 19⟩, ⟨30, 34⟩] ∧
      (partition [⟨11, 19⟩, ⟨30, 34⟩] attachedOutline.decls)[1]? = some [.gen ⟨19, 28⟩ .vars []] ∧
      emptyBetween ⟨11, 19⟩ ⟨30, 34⟩ ∈
        emptySectionFindings (Layout.of attachedText { width := 4 } attachedOutline) := by
  have hproper : ∀ d ∈ attachedOutline.decls, d.span.start ≤ d.span.stop := by decide
  have hbucket : (partition [⟨11, 19⟩, ⟨30, 34⟩] attachedOutline.decls)[1]? =
      some [.gen ⟨19, 28⟩ .vars []] := by decide
  have hinside : ∀ c ∈ attachedOutline.comments,
      c.span.Inside attachedText.chars ∧ c.span.start < c.span.stop := by
    unfold Span.Inside
    decide +kernel
  have htexts : ∀ d ∈ attachedOutline.decls, d.span.HoldsText attachedText.chars ∧
      ∀ c ∈ attachedOutline.comments, d.span.Disjoint c.span := by
    refine List.forall_mem_cons.mpr ⟨⟨⟨"var x int".toList, by decide +kernel, 'v', ?_⟩, by decide⟩,
      List.forall_mem_singleton.mpr ⟨⟨"var y int".toList, by decide +kernel, 'v', ?_⟩, by decide⟩⟩
    all_goals decide +kernel
  obtain ⟨bucket, hget, -, hiff⟩ := emptyBetween_mem_iff_bucket attachedText { width := 4 }
    attachedOutline inOrder_attached hproper 0 ⟨11, 19⟩ ⟨30, 34⟩ (by rw [separators_attached]; rfl)
    (by rw [separators_attached]; rfl)
  rw [separators_attached, hbucket, Option.some.injEq] at hget
  refine ⟨inOrder_attached, separators_attached, hbucket, (hiff hinside htexts).mpr ?_⟩
  rw [← hget]
  decide

/-- A declaration that touches a separator is in a bucket, and yet its section is reported. -/
theorem not_forall_emptyBetween_iff_bucket_empty :
    ¬ ∀ (t : SourceText) (options : Options) (o : Outline),
      (∀ d ∈ o.decls, d.span.start ≤ d.span.stop) →
      (o.decls.Pairwise fun d e => d.span.Disjoint e.span) →
      (∀ d ∈ o.decls, ∀ c ∈ o.comments, d.span.Disjoint c.span) → InOrder o.comments →
      ∀ (i : Nat) (current next : Span) (bucket : List Decl),
        (separators t options o.comments)[i]? = some current →
        (separators t options o.comments)[i + 1]? = some next →
        (partition (separators t options o.comments) o.decls)[i + 1]? = some bucket →
        (emptyBetween current next ∈ emptySectionFindings (Layout.of t options o) ↔
          bucket = []) := by
  intro h
  have hcurrent : (separators attachedText { width := 4 } attachedOutline.comments)[0]? =
      some ⟨11, 19⟩ := by rw [separators_attached]; rfl
  have hnext : (separators attachedText { width := 4 } attachedOutline.comments)[0 + 1]? =
      some ⟨30, 34⟩ := by rw [separators_attached]; rfl
  have hbucket : (partition (separators attachedText { width := 4 } attachedOutline.comments)
      attachedOutline.decls)[0 + 1]? = some [.gen ⟨19, 28⟩ .vars []] := by
    rw [separators_attached]
    decide
  have hreported : emptyBetween ⟨11, 19⟩ ⟨30, 34⟩ ∈
      emptySectionFindings (Layout.of attachedText { width := 4 } attachedOutline) := by
    rw [emptyBetween_mem_of_iff hcurrent hnext]
    decide
  have hiff := h attachedText { width := 4 } attachedOutline (by decide) (by decide) (by decide)
    inOrder_attached 0 _ _ _ hcurrent hnext hbucket
  cases hiff.mp hreported

end Separator

end LayoutLint
