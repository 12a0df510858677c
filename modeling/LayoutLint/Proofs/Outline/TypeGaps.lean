import LayoutLint.Proofs.Outline.Shifted

/-! # Comments before the name of a type

The name of a type is looked for in the first named tree below a pointer or a parenthesis, and a
comment is a named tree without a name. So a type has the name that it has without a comment, unless
that comment stands between its start and the name.
-/

namespace LayoutLint.Outline

open Source Tree

/-! ## Where names stand -/

mutual

/-- Where the name of a type starts, behind pointers, parentheses and comments. -/
def nameStart : Tree → Nat
  | .leaf _ _ t => t.start
  | .comment c => c.span.start
  | .missing _ _ _ o => o
  | .node _ kind children =>
    match kind with
    | .pointerType | .parenthesizedType => innerStart children
    | _ => startOf children

def innerStart : List Tree → Nat
  | [] => 0
  | t :: ts => if t.isNamed && !t.isComment then nameStart t else innerStart ts

end

section

variable {gone : Comment → Bool} {place n : Nat} {t : Tree} {ts : List Tree}

theorem innerStart_cons (hnamed : t.isNamed = true) (hc : t.isComment = false) (ts : List Tree) :
    innerStart (t :: ts) = nameStart t := if_pos (by simp [hnamed, hc])

theorem innerStart_cons_of_mark (hnamed : t.isNamed = false) (ts : List Tree) :
    innerStart (t :: ts) = innerStart ts := if_neg (by simp [hnamed])

theorem innerStart_cons_of_isComment (hc : t.isComment = true) (ts : List Tree) :
    innerStart (t :: ts) = innerStart ts := if_neg (by simp [hc])

theorem nameStart_of_kind {field : Option Field} {kind : NodeKind} {children : List Tree}
    (hpointer : kind ≠ .pointerType) (hparens : kind ≠ .parenthesizedType) :
    nameStart (.node field kind children) = startOf children := by
  unfold nameStart
  split
  · exact absurd rfl hpointer
  · exact absurd rfl hparens
  · rfl

theorem innerStart_shiftOf (hzero : shiftStart place n 0 = 0)
    (h : ∀ t ∈ ts, nameStart (t.shift gone place n) = shiftStart place n (nameStart t)) :
    innerStart (shiftOf gone place n ts) = shiftStart place n (innerStart ts) := by
  induction ts with
  | nil => exact hzero.symm
  | cons t ts ih =>
    have ih := ih fun u hu => h u (.tail _ hu)
    cases hgone : t.isGone gone with
    | true =>
      have hc : t.isComment = true := decide_eq_true (kind_of_isGone hgone)
      rw [shiftOf_cons_of_isGone hgone, innerStart_cons_of_isComment hc, ih]
    | false =>
      rw [shiftOf_cons hgone]
      cases hnamed : t.isNamed with
      | false => rw [innerStart_cons_of_mark hnamed, innerStart_cons_of_mark (by simpa), ih]
      | true =>
        cases hc : t.isComment with
        | true =>
          rw [innerStart_cons_of_isComment hc, innerStart_cons_of_isComment (by simpa), ih]
        | false =>
          rw [innerStart_cons hnamed hc, innerStart_cons (by simpa) (by simpa), h t (.head _)]

theorem nameStart_shift (hzero : shiftStart place n 0 = 0) (h : t.Trim gone) :
    nameStart (t.shift gone place n) = shiftStart place n (nameStart t) := by
  induction t using induction_on_children with
  | step t ih =>
    cases t with
    | node field kind children =>
      have hchildren : innerStart (shiftOf gone place n children) =
          shiftStart place n (innerStart children) :=
        innerStart_shiftOf hzero fun c hc => ih c hc (h.of_mem_children hc)
      by_cases hpointer : kind = .pointerType
      · subst hpointer
        exact hchildren
      by_cases hparens : kind = .parenthesizedType
      · subst hparens
        exact hchildren
      have hstart := start_shift hzero h
      rw [Tree.shift, Tree.start, Tree.start] at hstart
      rw [Tree.shift, nameStart_of_kind hpointer hparens, nameStart_of_kind hpointer hparens,
        hstart]
    | _ => rfl

end

section

variable {cs : List Char} {gone : Comment → Bool} {place n : Nat} {t : Tree} {ts : List Tree}
  {m : String}

theorem nameStart_le_stop (h : Laid cs [t]) : nameStart t ≤ t.stop := by
  have hinner : ∀ {ts : List Tree} {stop : Nat}, (∀ t ∈ ts, nameStart t ≤ stop) →
      innerStart ts ≤ stop := by
    intro ts stop hts
    induction ts with
    | nil => exact Nat.zero_le stop
    | cons t ts ih =>
      rw [innerStart]
      split
      · exact hts t (.head _)
      · exact ih fun u hu => hts u (.tail _ hu)
  refine Shaped.induction_children (P := fun t => Laid cs [t] → nameStart t ≤ t.stop)
    (fun t _ ih h => ?_) h.shaped_self h
  cases t with
  | leaf => exact Nat.le_of_lt h.start_lt_stop
  | comment => exact Nat.le_of_lt h.start_lt_stop
  | missing => exact Nat.le_of_lt h.start_lt_stop
  | node field kind children =>
    have hchildren : innerStart children ≤ (Source.Tree.node field kind children).stop := by
      apply hinner
      intro c hc
      exact Nat.le_trans (ih c hc (h.children.of_mem hc)) (h.child_within hc).2
    by_cases hpointer : kind = .pointerType
    · subst hpointer
      exact hchildren
    by_cases hparens : kind = .parenthesizedType
    · subst hparens
      exact hchildren
    rw [nameStart_of_kind hpointer hparens]
    exact Nat.le_of_lt h.start_lt_stop

/-! ## Which tree has the name -/

theorem innerTypeName?_cons (hnamed : t.isNamed = true) (pointers : Bool) (ts : List Tree) :
    innerTypeName? pointers (t :: ts) =
      if !pointers && t.kind = .pointerType then none else baseTypeName? t := by
  rw [innerTypeName?, if_neg (by simp [hnamed])]

theorem innerTypeName?_cons_of_mark (hnamed : t.isNamed = false) (pointers : Bool)
    (ts : List Tree) : innerTypeName? pointers (t :: ts) = innerTypeName? pointers ts := by
  rw [innerTypeName?, if_pos (by simp [hnamed])]

theorem innerTypeName?_cons_comment (c : Comment) (pointers : Bool) (ts : List Tree) :
    innerTypeName? pointers (.comment c :: ts) = none := by
  rw [innerTypeName?_cons rfl, baseTypeName?, ite_self]

theorem exists_of_innerTypeName? (hts : ∀ t ∈ ts, t.Shaped) {pointers : Bool}
    (h : innerTypeName? pointers (shiftOf gone place n ts) = some m) :
    ∃ t ∈ ts, baseTypeName? (t.shift gone place n) = some m ∧ innerStart ts = nameStart t := by
  induction ts with
  | nil => cases h
  | cons t ts ih =>
    have hrest : innerTypeName? pointers (shiftOf gone place n ts) = some m →
        innerStart (t :: ts) = innerStart ts →
        ∃ u ∈ t :: ts, baseTypeName? (u.shift gone place n) = some m ∧
          innerStart (t :: ts) = nameStart u := by
      intro hname hstart
      obtain ⟨u, hu, huname, hustart⟩ := ih (fun u hu => hts u (.tail _ hu)) hname
      exact ⟨u, .tail _ hu, huname, hstart.trans hustart⟩
    cases hgone : t.isGone gone with
    | true =>
      have hc : t.isComment = true := decide_eq_true (kind_of_isGone hgone)
      rw [shiftOf_cons_of_isGone hgone] at h
      exact hrest h (innerStart_cons_of_isComment hc ts)
    | false =>
      rw [shiftOf_cons hgone] at h
      cases hnamed : t.isNamed with
      | false =>
        rw [innerTypeName?_cons_of_mark (by simpa)] at h
        exact hrest h (innerStart_cons_of_mark hnamed ts)
      | true =>
        cases hc : t.isComment with
        | true =>
          obtain ⟨c, rfl⟩ := (hts t (.head _)).exists_eq_comment hc
          rw [Tree.shift, innerTypeName?_cons_comment] at h
          cases h
        | false =>
          rw [innerTypeName?_cons (by simpa)] at h
          split at h
          · cases h
          · exact ⟨t, .head _, h, innerStart_cons hnamed hc ts⟩

theorem start_le_nameStart (h : Laid cs [t])
    (hname : baseTypeName? (t.shift gone place n) = some m) : t.start ≤ nameStart t := by
  refine Shaped.induction_children
    (P := fun t => Laid cs [t] → baseTypeName? (t.shift gone place n) = some m →
      t.start ≤ nameStart t)
    (fun t _ ih h hname => ?_) h.shaped_self h hname
  cases t with
  | node field kind children =>
    have hinner : ∀ pointers,
        innerTypeName? pointers (shiftOf gone place n children) = some m →
        (Source.Tree.node field kind children).start ≤ innerStart children := by
      intro pointers hname
      obtain ⟨c, hc, hcname, hstart⟩ := exists_of_innerTypeName? h.children.shaped hname
      have hstart : innerStart children = nameStart c := hstart
      rw [hstart]
      exact Nat.le_trans (h.child_within hc).1 (ih c hc (h.children.of_mem hc) hcname)
    by_cases hpointer : kind = .pointerType
    · subst hpointer
      exact hinner false hname
    by_cases hparens : kind = .parenthesizedType
    · subst hparens
      exact hinner true hname
    rw [nameStart_of_kind hpointer hparens]
    exact Nat.le_refl _
  | _ => exact Nat.le_refl _

/-! ## Comments in a type -/

theorem not_within_mark (h : t.Shaped) (hkind : t.kind = .mark) (c : Comment) :
    ¬ Within (.comment c) t := by
  intro hwithin
  cases h with
  | leaf =>
    cases hwithin with
    | child hd => cases hd
  | comment => cases hkind
  | node hfits => exact (Profile.fits_of_eq hfits).notMark hkind

theorem not_innerStart_le {c : Comment} (hlaid : Laid cs (.comment c :: ts)) {pointers : Bool}
    (hname : innerTypeName? pointers (shiftOf gone place n ts) = some m) :
    ¬ innerStart ts ≤ c.span.start := by
  obtain ⟨u, hu, huname, hstart⟩ :=
    exists_of_innerTypeName? (fun u hu => hlaid.shaped u (.tail _ hu)) hname
  have hustart := start_le_nameStart (hlaid.of_mem (.tail _ hu)) huname
  have hlt : c.span.start < c.span.stop := (hlaid.of_mem (.head _)).start_lt_stop
  have hstop : c.span.stop ≤ u.start := (List.pairwise_cons.mp hlaid.pairwise).1 u hu
  omega

theorem forall_within_cons_iff (hlaid : Laid cs (t :: ts)) :
    (∀ c, gone c = true → ∀ u ∈ t :: ts, Within (.comment c) u → nameStart t ≤ c.span.start) ↔
      ∀ c, gone c = true → Within (.comment c) t → nameStart t ≤ c.span.start := by
  refine ⟨fun h c hc => h c hc t (.head _), fun h c hc u hu hwithin => ?_⟩
  rcases List.mem_cons.mp hu with rfl | hu
  · exact h c hc hwithin
  · have hname := nameStart_le_stop (hlaid.of_mem (.head _))
    have hafter : t.stop ≤ u.start := (List.pairwise_cons.mp hlaid.pairwise).1 u hu
    have hstart := (hwithin.span_within (hlaid.of_mem (.tail _ hu))).1
    exact Nat.le_trans hname (Nat.le_trans hafter hstart)

theorem innerTypeName?_eq_some_iff_shift (hlaid : Laid cs ts)
    (ih : ∀ t ∈ ts, (baseTypeName? t = some m ↔
      baseTypeName? (t.shift gone place n) = some m ∧
        ∀ c, gone c = true → Within (.comment c) t → nameStart t ≤ c.span.start))
    (pointers : Bool) :
    innerTypeName? pointers ts = some m ↔
      innerTypeName? pointers (shiftOf gone place n ts) = some m ∧
        ∀ c, gone c = true → ∀ t ∈ ts, Within (.comment c) t → innerStart ts ≤ c.span.start := by
  induction ts with
  | nil => simp [innerTypeName?, shiftOf]
  | cons t ts ihts =>
    have htlaid := hlaid.of_mem (.head _)
    have hrest := ihts (hlaid.sublist (List.sublist_cons_self t ts)) fun u hu => ih u (.tail _ hu)
    cases hgone : t.isGone gone with
    | true =>
      obtain ⟨c, rfl, hc⟩ := exists_of_isGone hgone
      rw [innerTypeName?_cons_comment, shiftOf_cons_of_isGone hgone,
        innerStart_cons_of_isComment rfl]
      constructor
      · rintro ⟨⟩
      · rintro ⟨hname, hcomments⟩
        exact absurd (hcomments c hc _ (.head _) (.self _)) (not_innerStart_le hlaid hname)
    | false =>
      rw [shiftOf_cons hgone]
      cases hnamed : t.isNamed with
      | false =>
        rw [innerTypeName?_cons_of_mark hnamed, innerTypeName?_cons_of_mark (by simpa),
          innerStart_cons_of_mark hnamed, hrest]
        have hmark : t.kind = .mark := by simpa [Tree.isNamed] using hnamed
        have hnone := not_within_mark htlaid.shaped_self hmark
        simp [hnone]
      | true =>
        cases hc : t.isComment with
        | true =>
          obtain ⟨c, rfl⟩ := htlaid.shaped_self.exists_eq_comment hc
          simp [Tree.shift, innerTypeName?_cons_comment]
        | false =>
          rw [innerTypeName?_cons hnamed, innerTypeName?_cons (by simpa), kind_shift,
            innerStart_cons hnamed hc, forall_within_cons_iff hlaid]
          split
          · simp
          · exact ih t (.head _)

/-- A type has the name that it has without the comments that are gone, unless one of them stands
before the name. -/
theorem baseTypeName?_eq_some_iff_shift (gone : Comment → Bool) (place n : Nat)
    (h : Laid cs [t]) :
    baseTypeName? t = some m ↔ baseTypeName? (t.shift gone place n) = some m ∧
      ∀ c, gone c = true → Within (.comment c) t → nameStart t ≤ c.span.start := by
  induction t using induction_on_children with
  | step t ih =>
    by_cases hpointer : t.kind = .pointerType ∨ t.kind = .parenthesizedType
    · cases h.shaped_self with
      | leaf =>
        refine ⟨fun hname => ⟨hname, fun c _ hc => ?_⟩, fun hname => hname.1⟩
        cases hc with
        | child hd => cases hd
      | comment => simp [Tree.kind] at hpointer
      | @node field kind children =>
        have hinner := innerTypeName?_eq_some_iff_shift h.children fun c hc =>
          ih c hc (h.children.of_mem hc)
        have hwithin : ∀ c, Within (.comment c) (.node field kind children) ↔
            ∃ t ∈ children, Within (.comment c) t := by
          intro c
          constructor
          · rintro (_ | ⟨ht, hc⟩)
            exact ⟨_, ht, hc⟩
          · rintro ⟨t, ht, hc⟩
            exact .child ht hc
        simp only [hwithin, forall_exists_index, and_imp]
        rcases hpointer with rfl | rfl
        · exact hinner false
        · exact hinner true
    · rw [not_or] at hpointer
      rw [baseTypeName?_shift_of_kind hpointer.1 hpointer.2]
      refine ⟨fun hname => ⟨hname, fun c _ hc => ?_⟩, fun hname => hname.1⟩
      have hstart : nameStart t = t.start := by
        cases t with
        | node => exact nameStart_of_kind hpointer.1 hpointer.2
        | _ => rfl
      rw [hstart]
      exact (hc.span_within h).1

end

end LayoutLint.Outline
