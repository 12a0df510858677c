import LayoutLint.Proofs.Source.Shifted
import Mathlib.Data.List.Forall2
import Mathlib.Data.List.Pairwise

/-! # Trees with a comment put in

A comment that is put between two tokens of a file is one more child of the node in which it stands,
and all else in the tree moves around it. Without the comment the new tree is the old one.
-/

namespace LayoutLint.Source.Tree

/-- The second tree is the first with its offsets moved around `n` bytes at `place`. The line feeds
and comments that a token carries may be others. -/
inductive Moved (place n : Nat) : Tree → Tree → Prop where

  | leaf {field kind} {u u' : Token} : u'.kind = u.kind → u'.text = u.text →
      u'.start = shiftStart place n u.start →
      Moved place n (.leaf field kind u) (.leaf field kind u')

  | comment {c} : Moved place n (.comment c) (.comment (c.shift place n))

  | node {field kind ts ts'} : List.Forall₂ (Moved place n) ts ts' →
      Moved place n (.node field kind ts) (.node field kind ts')

/-- The second tree is the first with the comment as one more child of one node, between two others,
and its offsets moved around the comment. -/
inductive Inserted (c : Comment) : Tree → Tree → Prop where

  | here {field kind pre pre' post post'} :
      List.Forall₂ (Moved c.span.start c.span.length) pre pre' → pre ≠ [] →
      List.Forall₂ (Moved c.span.start c.span.length) post post' → post ≠ [] →
      Inserted c (.node field kind (pre ++ post)) (.node field kind (pre' ++ .comment c :: post'))

  | inside {field kind pre pre' t t' post post'} :
      List.Forall₂ (Moved c.span.start c.span.length) pre pre' → Inserted c t t' →
      List.Forall₂ (Moved c.span.start c.span.length) post post' →
      Inserted c (.node field kind (pre ++ t :: post)) (.node field kind (pre' ++ t' :: post'))

/-! ## Without the comment -/

section

variable {place n : Nat} {t t' u : Tree} {ts ts' : List Tree}

def startsAt (place : Nat) (c : Comment) : Bool := c.span.start = place

def never (_ : Comment) : Bool := false

@[simp] theorem isGone_never (t : Tree) : t.isGone never = false := by cases t <;> rfl

theorem trim_never (t : Tree) : t.Trim never :=
  fun _ _ => ⟨fun c _ => isGone_never c, fun c _ => isGone_never c⟩

theorem Trim.node {gone : Comment → Bool} {field : Option Field} {kind : NodeKind}
    (hfirst : ∀ c, ts.head? = some c → c.isGone gone = false)
    (hlast : ∀ c, ts.getLast? = some c → c.isGone gone = false)
    (hts : ∀ t ∈ ts, t.Trim gone) : (Tree.node field kind ts).Trim gone := by
  intro u hu
  cases hu with
  | self => exact ⟨hfirst, hlast⟩
  | child ht hu => exact hts _ ht u hu

theorem trim_comment {gone : Comment → Bool} (c : Comment) : (Tree.comment c).Trim gone := by
  intro u hu
  cases hu with
  | self => exact ⟨by simp [children], by simp [children]⟩
  | child hd => cases hd

theorem shiftStart_ne_place (hn : 0 < n) (o : Nat) : shiftStart place n o ≠ place := by
  unfold shiftStart
  split <;> omega

theorem Moved.isGone_eq_false (hn : 0 < n) (h : Moved place n t t') :
    t'.isGone (startsAt place) = false := by
  cases h with
  | comment => exact decide_eq_false (shiftStart_ne_place hn _)
  | _ => rfl

theorem shiftOf_eq_of_forall₂ (hn : 0 < n) (h : List.Forall₂ (Moved place n) ts ts')
    (hts : ∀ t ∈ ts, ∀ t', Moved place n t t' →
      t'.shift (startsAt place) place 0 = t.shift never place n) :
    shiftOf (startsAt place) place 0 ts' = shiftOf never place n ts := by
  induction h with
  | nil => rfl
  | @cons t t' ts ts' hmoved _ ih =>
    rw [shiftOf_cons (hmoved.isGone_eq_false hn), shiftOf_cons (isGone_never t),
      hts t (.head _) t' hmoved, ih fun u hu => hts u (.tail _ hu)]

theorem Moved.shift_eq (hn : 0 < n) (h : Moved place n t t') :
    t'.shift (startsAt place) place 0 = t.shift never place n := by
  induction t using induction_on_children generalizing t' with
  | step t ih =>
    cases h with
    | leaf hkind htext hstart => simp [shift, hkind, htext, hstart]
    | comment => simp [shift]
    | @node field kind ts ts' hts =>
      have hchildren : shiftOf (startsAt place) place 0 ts' = shiftOf never place n ts :=
        shiftOf_eq_of_forall₂ hn hts fun t ht t' => ih t ht
      rw [shift, shift, hchildren]

theorem exists_mem_of_forall₂ {α β : Type} {R : α → β → Prop} {xs : List α} {ys : List β} {y : β}
    (h : List.Forall₂ R xs ys) (hy : y ∈ ys) : ∃ x ∈ xs, R x y := by
  induction h with
  | nil => cases hy
  | cons hR _ ih =>
    rcases List.mem_cons.mp hy with rfl | hy
    · exact ⟨_, .head _, hR⟩
    · obtain ⟨x, hx, hxy⟩ := ih hy
      exact ⟨x, .tail _ hx, hxy⟩

theorem exists_mem_of_forall₂_flip {α β : Type} {R : α → β → Prop} {xs : List α} {ys : List β}
    {x : α} (h : List.Forall₂ R xs ys) (hx : x ∈ xs) : ∃ y ∈ ys, R x y :=
  exists_mem_of_forall₂ (R := flip R) (List.Forall₂.flip h) hx

theorem Moved.exists_within (h : Moved place n t t') {u' : Tree} (hu : Within u' t') :
    ∃ u, Within u t ∧ Moved place n u u' := by
  induction hu generalizing t with
  | self => exact ⟨t, .self t, h⟩
  | @child c' t' hc' _ ih =>
    cases h with
    | leaf => cases hc'
    | comment => cases hc'
    | node hts =>
      obtain ⟨c, hc, hmoved⟩ := exists_mem_of_forall₂ hts hc'
      obtain ⟨u, hu, hmoved⟩ := ih hmoved
      exact ⟨u, .child hc hu, hmoved⟩

theorem Moved.exists_within' (h : Moved place n t t') (hu : Within u t) :
    ∃ u', Within u' t' ∧ Moved place n u u' := by
  induction hu generalizing t' with
  | self => exact ⟨t', .self t', h⟩
  | child hc _ ih =>
    cases h with
    | leaf => cases hc
    | comment => cases hc
    | node hts =>
      obtain ⟨c', hc', hmoved⟩ := exists_mem_of_forall₂_flip hts hc
      obtain ⟨u', hu', hmoved⟩ := ih hmoved
      exact ⟨u', .child hc' hu', hmoved⟩

theorem Moved.trim (hn : 0 < n) (h : Moved place n t t') : t'.Trim (startsAt place) := by
  have hkept : ∀ u, Within u t' → u.isGone (startsAt place) = false := by
    intro u hu
    obtain ⟨_, _, hmoved⟩ := h.exists_within hu
    exact hmoved.isGone_eq_false hn
  intro u hu
  constructor
  · intro c hc
    exact hkept c ((Within.child (List.mem_of_head? hc) (.self c)).trans hu)
  · intro c hc
    exact hkept c ((Within.child (List.mem_of_getLast? hc) (.self c)).trans hu)

def comments (t : Tree) : List Comment := t.gather (fun _ => []) fun c => [c]

theorem comments_node (field : Option Field) (kind : NodeKind) (ts : List Tree) :
    (Tree.node field kind ts).comments = ts.flatMap comments := gatherOf_eq_flatMap _ _ ts

theorem flatMap_comments_of_forall₂ (h : List.Forall₂ (Moved place n) ts ts')
    (hts : ∀ t ∈ ts, ∀ t', Moved place n t t' →
      t'.comments = t.comments.map (Comment.shift place n)) :
    ts'.flatMap comments = (ts.flatMap comments).map (Comment.shift place n) := by
  induction h with
  | nil => rfl
  | @cons t t' ts ts' hmoved _ ih =>
    rw [List.flatMap_cons, List.flatMap_cons, List.map_append, hts t (.head _) t' hmoved,
      ih fun u hu => hts u (.tail _ hu)]

theorem Moved.comments_eq (h : Moved place n t t') :
    t'.comments = t.comments.map (Comment.shift place n) := by
  induction t using induction_on_children generalizing t' with
  | step t ih =>
    cases h with
    | leaf => rfl
    | comment => rfl
    | node hts =>
      rw [comments_node, comments_node]
      exact flatMap_comments_of_forall₂ hts fun t ht t' => ih t ht

end

namespace Inserted

variable {c : Comment} {t t' : Tree} (h : Inserted c t t')
include h

theorem within : Within (.comment c) t' := by
  induction h with
  | here => exact .child (List.mem_append_right _ (.head _)) (.self _)
  | inside _ _ _ ih => exact .child (List.mem_append_right _ (.head _)) ih

theorem isGone_eq_false : t'.isGone (startsAt c.span.start) = false := by cases h <;> rfl

theorem shift_eq (hn : 0 < c.span.length) :
    t'.shift (startsAt c.span.start) c.span.start 0 =
      t.shift never c.span.start c.span.length := by
  have hmoved : ∀ {ts ts' : List Tree},
      List.Forall₂ (Moved c.span.start c.span.length) ts ts' →
        shiftOf (startsAt c.span.start) c.span.start 0 ts' =
          shiftOf never c.span.start c.span.length ts := fun hts =>
    shiftOf_eq_of_forall₂ hn hts fun _ _ _ ht => ht.shift_eq hn
  induction h with
  | here hpre _ hpost _ =>
    have hgone : (Tree.comment c).isGone (startsAt c.span.start) = true := decide_eq_true rfl
    rw [shift, shift, shiftOf_append, shiftOf_append, shiftOf_cons_of_isGone hgone, hmoved hpre,
      hmoved hpost]
  | @inside field kind pre pre' t t' post post' hpre ht hpost ih =>
    rw [shift, shift, shiftOf_append, shiftOf_append, shiftOf_cons ht.isGone_eq_false,
      shiftOf_cons (isGone_never t), hmoved hpre, hmoved hpost, ih]

theorem comments_perm :
    t'.comments.Perm (c :: t.comments.map (Comment.shift c.span.start c.span.length)) := by
  have hmoved : ∀ {ts ts' : List Tree},
      List.Forall₂ (Moved c.span.start c.span.length) ts ts' → ts'.flatMap comments =
        (ts.flatMap comments).map (Comment.shift c.span.start c.span.length) := fun hts =>
    flatMap_comments_of_forall₂ hts fun _ _ _ ht => ht.comments_eq
  induction h with
  | here hpre _ hpost _ =>
    rw [comments_node, comments_node, List.flatMap_append, List.flatMap_append, List.flatMap_cons,
      List.map_append, hmoved hpre, hmoved hpost]
    exact List.perm_middle
  | inside hpre _ hpost ih =>
    rw [comments_node, comments_node, List.flatMap_append, List.flatMap_append, List.flatMap_cons,
      List.flatMap_cons, List.map_append, List.map_append, hmoved hpre, hmoved hpost]
    refine ((ih.append_right _).append_left _).trans ?_
    rw [List.cons_append]
    exact List.perm_middle

theorem trim (hn : 0 < c.span.length) : t'.Trim (startsAt c.span.start) := by
  have hmem : ∀ {ts ts' : List Tree}, List.Forall₂ (Moved c.span.start c.span.length) ts ts' →
      ∀ d ∈ ts', d.isGone (startsAt c.span.start) = false ∧ d.Trim (startsAt c.span.start) := by
    intro ts ts' hts d hd
    obtain ⟨_, _, hmoved⟩ := exists_mem_of_forall₂ hts hd
    exact ⟨hmoved.isGone_eq_false hn, hmoved.trim hn⟩
  have hne : ∀ {ts ts' : List Tree}, List.Forall₂ (Moved c.span.start c.span.length) ts ts' →
      ts ≠ [] → ts' ≠ [] := by
    rintro ts ts' hts hne rfl
    exact hne (List.forall₂_nil_right_iff.mp hts)
  induction h with
  | @here field kind pre pre' post post' hpre hpre₀ hpost hpost₀ =>
    refine .node (fun d hd => ?_) (fun d hd => ?_) fun d hd => ?_
    · rw [List.head?_append_of_ne_nil _ (hne hpre hpre₀)] at hd
      exact (hmem hpre d (List.mem_of_head? hd)).1
    · obtain ⟨e, rest, rfl⟩ := List.exists_cons_of_ne_nil (hne hpost hpost₀)
      rw [List.getLast?_append_cons, List.getLast?_cons_cons] at hd
      exact (hmem hpost d (List.mem_of_getLast? hd)).1
    · rcases List.mem_append.mp hd with hd | hd
      · exact (hmem hpre d hd).2
      · rcases List.mem_cons.mp hd with rfl | hd
        · exact trim_comment c
        · exact (hmem hpost d hd).2
  | @inside field kind pre pre' t t' post post' hpre ht hpost ih =>
    have hall : ∀ d ∈ pre' ++ t' :: post',
        d.isGone (startsAt c.span.start) = false ∧ d.Trim (startsAt c.span.start) := by
      intro d hd
      rcases List.mem_append.mp hd with hd | hd
      · exact hmem hpre d hd
      · rcases List.mem_cons.mp hd with rfl | hd
        · exact ⟨ht.isGone_eq_false, ih⟩
        · exact hmem hpost d hd
    exact .node (fun d hd => (hall d (List.mem_of_head? hd)).1)
      (fun d hd => (hall d (List.mem_of_getLast? hd)).1) fun d hd => (hall d hd).2

theorem exists_mem_children {d : Tree} (hd : d ∈ t.children) :
    ∃ d' ∈ t'.children, Moved c.span.start c.span.length d d' ∨ Inserted c d d' := by
  cases h with
  | here hpre _ hpost _ =>
    rcases List.mem_append.mp hd with hd | hd
    · obtain ⟨d', hd', hmoved⟩ := exists_mem_of_forall₂_flip hpre hd
      exact ⟨d', List.mem_append_left _ hd', .inl hmoved⟩
    · obtain ⟨d', hd', hmoved⟩ := exists_mem_of_forall₂_flip hpost hd
      exact ⟨d', List.mem_append_right _ (.tail _ hd'), .inl hmoved⟩
  | @inside _ _ _ _ _ t' _ _ hpre ht hpost =>
    rcases List.mem_append.mp hd with hd | hd
    · obtain ⟨d', hd', hmoved⟩ := exists_mem_of_forall₂_flip hpre hd
      exact ⟨d', List.mem_append_left _ hd', .inl hmoved⟩
    · rcases List.mem_cons.mp hd with rfl | hd
      · exact ⟨t', List.mem_append_right _ (.head _), .inr ht⟩
      · obtain ⟨d', hd', hmoved⟩ := exists_mem_of_forall₂_flip hpost hd
        exact ⟨d', List.mem_append_right _ (.tail _ hd'), .inl hmoved⟩

theorem exists_leaf {field : Option Field} {kind : NodeKind} {u : Token}
    (hu : Within (.leaf field kind u) t) :
    ∃ u', Within (.leaf field kind u') t' ∧ u'.text = u.text ∧
      u'.start = shiftStart c.span.start c.span.length u.start := by
  induction hu generalizing t' with
  | self => cases h
  | child hd hu ih =>
    obtain ⟨d', hd', hmoved | hinserted⟩ := h.exists_mem_children hd
    · obtain ⟨_, hu', hmoved⟩ := hmoved.exists_within' hu
      cases hmoved with
      | leaf _ htext hstart => exact ⟨_, .child hd' hu', htext, hstart⟩
    · obtain ⟨u', hu', hsame⟩ := ih hinserted
      exact ⟨u', .child hd' hu', hsame⟩

theorem start_pos {cs : List Char} (hlaid : Laid cs t'.children) : 0 < c.span.start := by
  induction h with
  | @here field kind pre pre' post post' hpre hpre₀ _ _ =>
    obtain ⟨d, hd⟩ := List.exists_mem_of_ne_nil pre hpre₀
    obtain ⟨d', hd', -⟩ := exists_mem_of_forall₂_flip hpre hd
    have hlt := (hlaid.of_mem (List.mem_append_left _ hd')).start_lt_stop
    have hle : d'.stop ≤ c.span.start :=
      (List.pairwise_append.mp hlaid.pairwise).2.2 d' hd' _ (.head _)
    omega
  | inside _ _ _ ih =>
    exact ih (hlaid.of_mem (List.mem_append_right _ (.head _))).children

end Inserted

/-! ## Laid out in the texts -/

section

variable {cs cs' : List Char} {t u root root' : Tree}

/-- Of two trees in a tree, one stands in the other or before it. -/
theorem Within.within_or_precedes (hlaid : Laid cs root.children) (hu : Within u root)
    (ht : Within t root) :
    Within u t ∨ Within t u ∨ u.span.Precedes t.span ∨ t.span.Precedes u.span := by
  induction hu with
  | self => exact .inr (.inl ht)
  | @child c root hc hu ih =>
    cases ht with
    | self => exact .inl (.child hc hu)
    | @child d _ hd ht =>
      have hclaid := hlaid.of_mem hc
      have hdlaid := hlaid.of_mem hd
      by_cases hcd : c = d
      · exact ih hclaid.children (hcd ▸ ht)
      · have hsymm : Std.Symm fun a b : Tree =>
            a.span.Precedes b.span ∨ b.span.Precedes a.span := ⟨fun _ _ => Or.symm⟩
        have hordered := (hlaid.pairwise.imp Or.inl).forall (R := fun a b : Tree =>
          a.span.Precedes b.span ∨ b.span.Precedes a.span) hc hd hcd
        have huspan := hu.span_within hclaid
        have htspan := ht.span_within hdlaid
        rcases hordered with hle | hle
        · exact .inr (.inr (.inl (Nat.le_trans huspan.2 (Nat.le_trans hle htspan.1))))
        · exact .inr (.inr (.inr (Nat.le_trans htspan.2 (Nat.le_trans hle huspan.1))))

namespace Inserted

variable {c : Comment} (h : Inserted c root root')
include h

theorem length_pos (hlaid' : Laid cs' root'.children) : 0 < c.span.length := by
  have hlt : c.span.start < c.span.stop := by
    cases h.within with
    | self => cases h
    | child hd hc => exact (hc.laid (hlaid'.of_mem hd)).start_lt_stop
  unfold Span.length
  omega

/-- The comment stands in each other tree of the new tree, before it or after it. -/
theorem within_or_precedes (hlaid' : Laid cs' root'.children) (ht : Within t root')
    (hc : t.isComment = false) :
    Within (.comment c) t ∨ c.span.stop ≤ t.start ∨ t.stop ≤ c.span.start := by
  rcases h.within.within_or_precedes hlaid' ht with hin | hin | hle | hle
  · exact .inl hin
  · cases hin with
    | self => cases hc
    | child hd => cases hd
  · exact .inr (.inl hle)
  · exact .inr (.inr hle)

theorem fits (hlaid : Laid cs root.children) (hlaid' : Laid cs' root'.children) :
    ∀ t ∈ root.children, t.Fits never c.span.start c.span.length := by
  intro t ht
  refine ⟨hlaid.shaped t ht, trim_never t, fun {field kind u} hu => ?_⟩
  obtain ⟨u', hu', htext, hstart⟩ := h.exists_leaf (.child ht hu)
  have hlength := h.length_pos hlaid'
  have hlt := (hu.laid (hlaid.of_mem ht)).start_lt_stop
  have hcomment : (Tree.leaf field kind u').isComment = false := by
    cases (hu.laid (hlaid.of_mem ht)).shaped_self with
    | leaf hkind => exact decide_eq_false hkind
  have hstop : (Tree.leaf field kind u').stop = u'.start + u.text.utf8ByteSize := by
    rw [← htext]
    rfl
  have hclear : c.span.stop ≤ u'.start ∨ u'.start + u.text.utf8ByteSize ≤ c.span.start := by
    rcases h.within_or_precedes hlaid' hu' hcomment with hin | hle | hle
    · cases hin with
      | child hd => cases hd
    · exact .inl hle
    · exact .inr (hstop ▸ hle)
  have hlt : u.start < u.stop := hlt
  rw [hstart] at hclear
  unfold Span.length shiftStart shiftStop Token.stop at *
  split <;> split at hclear <;> split <;> omega

theorem fits_zero (hlaid' : Laid cs' root'.children) :
    ∀ t ∈ root'.children, t.Fits (startsAt c.span.start) c.span.start 0 := by
  intro t ht
  refine ⟨hlaid'.shaped t ht, (h.trim (h.length_pos hlaid')).of_mem_children ht, ?_⟩
  intros
  simp [Token.stop]

theorem shiftStart_zero_eq (hlaid' : Laid cs' root'.children) (n : Nat) :
    shiftStart c.span.start n 0 = 0 := if_pos (h.start_pos hlaid')

end Inserted

end

end LayoutLint.Source.Tree
