import LayoutLint.Proofs.Source.Pieces
import LayoutLint.Proofs.Source.Shape
import LayoutLint.Proofs.Text.Between
import Mathlib.Data.List.Flatten

/-! # Trees in the text

A shaped tree starts with its first piece and ends with its last. Where the pieces stand in the
text one after the other, so do trees next to each other, and each child lies within its parent.
-/

namespace LayoutLint

namespace LaidOut

variable {cs : List Char} {ps qs : List Piece} {p q : Piece}

theorem sublist (h : LaidOut cs ps) (hsub : qs.Sublist ps) : LaidOut cs qs :=
  ⟨h.ordered.sublist hsub, fun p hp => h.stands p (hsub.subset hp)⟩

theorem start_le (h : LaidOut cs (p :: ps)) (hq : q ∈ p :: ps) : p.span.start ≤ q.span.start := by
  rcases List.mem_cons.mp hq with rfl | hmem
  · exact Nat.le_refl _
  · have hlt := (h.stands p List.mem_cons_self).start_lt_stop
    exact Nat.le_of_lt (Nat.lt_of_lt_of_le hlt ((List.pairwise_cons.mp h.ordered).1 q hmem))

theorem le_stop (h : LaidOut cs (ps ++ [p])) (hq : q ∈ ps ++ [p]) :
    q.span.stop ≤ p.span.stop := by
  rcases List.mem_append.mp hq with hmem | hmem
  · have hlt := (h.stands p (by simp)).start_lt_stop
    have hprecedes := (List.pairwise_append.mp h.ordered).2.2 q hmem p (by simp)
    exact Nat.le_of_lt (Nat.lt_of_le_of_lt hprecedes hlt)
  · rw [List.mem_singleton.mp hmem]

end LaidOut

namespace Source.Tree

theorem sizeOf_lt_of_mem_children {t c : Tree} (h : c ∈ t.children) : sizeOf c < sizeOf t := by
  cases t with
  | leaf => cases h
  | comment => cases h
  | missing => cases h
  | node field kind cs =>
    have hlt : sizeOf c < sizeOf cs := List.sizeOf_lt_of_mem h
    rw [node.sizeOf_spec]
    omega

/-- What passes from its children to a tree holds of each. -/
theorem induction_on_children {P : Tree → Prop} (step : ∀ t, (∀ c ∈ t.children, P c) → P t)
    (t : Tree) : P t :=
  step t fun c hc =>
    have := sizeOf_lt_of_mem_children hc
    induction_on_children step c
termination_by sizeOf t

theorem stopOf_append_singleton (ts : List Tree) (t : Tree) : stopOf (ts ++ [t]) = t.stop := by
  induction ts with
  | nil => rw [List.nil_append, stopOf]
  | cons u ts ih =>
    rw [← ih]
    cases ts with
    | nil => rw [List.singleton_append, stopOf, List.nil_append]
    | cons v ts => rw [List.cons_append, List.cons_append, stopOf]

theorem ne_nil_of_fits {ts : List Tree} {kind : NodeKind} (h : (Profile.of ts).fits kind = true) :
    ts ≠ [] := by
  rintro rfl
  simp [Profile.of, Profile.fits] at h

theorem mem_namedChildren {t c : Tree} :
    c ∈ t.namedChildren ↔ c ∈ t.children ∧ c.kind ≠ .mark := by
  rw [Tree.namedChildren, List.mem_filter, isNamed, decide_eq_true_eq]

theorem pieces_subset {t : Tree} {ts : List Tree} (h : t ∈ ts) : t.pieces ⊆ piecesOf ts := by
  rw [piecesOf_eq_flatMap]
  exact fun p hp => List.mem_flatMap.mpr ⟨t, h, hp⟩

theorem pieces_subset_of_child {t c : Tree} (h : c ∈ t.children) : c.pieces ⊆ t.pieces := by
  cases t with
  | node => exact pieces_subset h
  | _ => cases h

namespace Shaped

theorem induction_children {P : Tree → Prop} (step : ∀ t, t.Shaped → (∀ c ∈ t.children, P c) → P t)
    {t : Tree} (h : t.Shaped) : P t := by
  induction h with
  | leaf hcomment hblock ht hfield herror =>
    exact step _ (.leaf hcomment hblock ht hfield herror) (by simp [children])
  | comment => exact step _ .comment (by simp [children])
  | node hfits hfield hchildren ih => exact step _ (.node hfits hfield hchildren) ih

theorem of_mem_children {t c : Tree} (h : t.Shaped) (hc : c ∈ t.children) : c.Shaped := by
  cases h with
  | leaf => cases hc
  | comment => cases hc
  | node _ _ hchildren => exact hchildren c hc

theorem children_in_text {t : Tree} (h : t.Shaped) : ∀ c ∈ t.children, c.isMissing = false := by
  intro c hc
  cases h.of_mem_children hc <;> rfl

theorem exists_first {t : Tree} (h : t.Shaped) :
    ∃ p ps, t.pieces = p :: ps ∧ t.start = p.span.start := by
  induction h with
  | @leaf field kind t _ _ ht =>
    exact ⟨⟨t.span, t.text⟩, [], by rw [pieces, Token.own, if_neg ht], rfl⟩
  | @comment c => exact ⟨c.piece, [], rfl, rfl⟩
  | @node field kind children hfits _ _ ih =>
    obtain ⟨c, rest, rfl⟩ := List.exists_cons_of_ne_nil (ne_nil_of_fits hfits)
    obtain ⟨p, ps, hpieces, hstart⟩ := ih c List.mem_cons_self
    refine ⟨p, ps ++ piecesOf rest, ?_, ?_⟩
    · rw [pieces, piecesOf, hpieces, List.cons_append]
    · rw [start, startOf, hstart]

theorem exists_last {t : Tree} (h : t.Shaped) :
    ∃ ps p, t.pieces = ps ++ [p] ∧ t.stop = p.span.stop := by
  induction h with
  | @leaf field kind t _ _ ht =>
    exact ⟨[], ⟨t.span, t.text⟩, by rw [pieces, Token.own, if_neg ht, List.nil_append], rfl⟩
  | @comment c => exact ⟨[], c.piece, rfl, rfl⟩
  | @node field kind children hfits _ _ ih =>
    obtain ⟨rest, c, rfl⟩ : ∃ rest c, children = rest ++ [c] :=
      ⟨_, _, (List.dropLast_concat_getLast (ne_nil_of_fits hfits)).symm⟩
    obtain ⟨ps, p, hpieces, hstop⟩ := ih c (by simp)
    refine ⟨piecesOf rest ++ ps, p, ?_, ?_⟩
    · rw [pieces, piecesOf_append, piecesOf_singleton, hpieces, List.append_assoc]
    · rw [stop, stopOf_append_singleton, hstop]

end Shaped

/-- The trees are shaped, and their pieces stand in the text one after the other. -/
structure Laid (cs : List Char) (ts : List Tree) : Prop where
  shaped : ∀ t ∈ ts, t.Shaped
  pieces : LaidOut cs (piecesOf ts)

namespace Laid

variable {cs : List Char} {t c : Tree} {ts us : List Tree}

theorem sublist (h : Laid cs ts) (hsub : us.Sublist ts) : Laid cs us := by
  refine ⟨fun t ht => h.shaped t (hsub.subset ht), h.pieces.sublist ?_⟩
  rw [piecesOf_eq_flatMap, piecesOf_eq_flatMap]
  exact hsub.flatMap Tree.pieces

theorem of_mem (h : Laid cs ts) (ht : t ∈ ts) : Laid cs [t] :=
  h.sublist (List.singleton_sublist.mpr ht)

theorem shaped_self (h : Laid cs [t]) : t.Shaped := h.shaped t List.mem_cons_self

theorem pieces_self (h : Laid cs [t]) : LaidOut cs t.pieces := piecesOf_singleton t ▸ h.pieces

theorem children (h : Laid cs [t]) : Laid cs t.children := by
  have hlaid := h.pieces_self
  cases h.shaped_self with
  | leaf => exact ⟨by simp [Tree.children], ⟨.nil, by simp [Tree.children, piecesOf]⟩⟩
  | comment => exact ⟨by simp [Tree.children], ⟨.nil, by simp [Tree.children, piecesOf]⟩⟩
  | node _ _ hchildren => exact ⟨hchildren, hlaid⟩

theorem namedChildren (h : Laid cs [t]) : Laid cs t.namedChildren :=
  h.children.sublist List.filter_sublist

theorem start_lt_stop (h : Laid cs [t]) : t.start < t.stop := by
  obtain ⟨p, ps, hpieces, hstart⟩ := h.shaped_self.exists_first
  obtain ⟨qs, q, hpieces', hstop⟩ := h.shaped_self.exists_last
  have hlaid := h.pieces_self
  have hp : p ∈ qs ++ [q] := by rw [← hpieces', hpieces]; exact List.mem_cons_self
  rw [hpieces'] at hlaid
  have hlt := (hlaid.stands p hp).start_lt_stop
  have hle := hlaid.le_stop hp
  omega

theorem isSome_slice? (h : Laid cs [t]) : (Text.slice? cs t.start t.stop).isSome := by
  obtain ⟨p, ps, hpieces, hstart⟩ := h.shaped_self.exists_first
  obtain ⟨qs, q, hpieces', hstop⟩ := h.shaped_self.exists_last
  have hlaid := h.pieces_self
  have hp : p.Stands cs := hlaid.stands p (by rw [hpieces]; exact List.mem_cons_self)
  have hq : q.Stands cs := hlaid.stands q (by rw [hpieces']; simp)
  have hlt := h.start_lt_stop
  rw [hstart, hstop] at hlt ⊢
  exact hp.isSome_slice? hq (Nat.le_of_lt hlt)

theorem pairwise (h : Laid cs ts) : ts.Pairwise fun t u => t.span.Precedes u.span := by
  induction ts with
  | nil => exact .nil
  | cons t ts ih =>
    refine List.pairwise_cons.mpr ⟨fun u hu => ?_, ih (h.sublist (List.sublist_cons_self t ts))⟩
    obtain ⟨ps, p, hp, hstop⟩ := (h.shaped t List.mem_cons_self).exists_last
    obtain ⟨q, qs, hq, hstart⟩ := (h.shaped u (List.mem_cons_of_mem t hu)).exists_first
    have hordered := (List.pairwise_append.mp h.pieces.ordered).2.2
    have hle := hordered p (by rw [hp]; simp) q (pieces_subset hu (by rw [hq]; simp))
    rwa [Span.Precedes, span, span, hstop, hstart]

theorem child_within (h : Laid cs [t]) (hc : c ∈ t.children) :
    t.start ≤ c.start ∧ c.stop ≤ t.stop := by
  have hlaid := h.pieces_self
  have hshaped := h.children.shaped c hc
  have hsub := pieces_subset_of_child hc
  obtain ⟨p, ps, hp, hstart⟩ := h.shaped_self.exists_first
  obtain ⟨ps', p', hp', hstop⟩ := h.shaped_self.exists_last
  obtain ⟨q, qs, hq, hstart'⟩ := hshaped.exists_first
  obtain ⟨qs', q', hq', hstop'⟩ := hshaped.exists_last
  rw [hstart, hstop, hstart', hstop']
  constructor
  · rw [hp] at hlaid hsub
    exact hlaid.start_le (hsub (by rw [hq]; simp))
  · rw [hp'] at hlaid hsub
    exact hlaid.le_stop (hsub (by rw [hq']; simp))

end Laid

section

mutual

def isShaped : Tree → Bool
  | leaf field kind t =>
    kind ≠ .comment && kind ≠ .block && t.kind ≠ .endOfText && field ≠ some .body && kind ≠ .error
  | comment _ => true
  | missing _ _ _ _ => false
  | node field kind children =>
    (Profile.of children).fits kind && (field ≠ some .body || kind = .block) && areShaped children

def areShaped : List Tree → Bool
  | [] => true
  | t :: ts => t.isShaped && areShaped ts

end

theorem areShaped_iff {ts : List Tree} : areShaped ts = true ↔ ∀ t ∈ ts, t.isShaped = true := by
  induction ts with
  | nil => simp [areShaped]
  | cons t ts ih => rw [areShaped, Bool.and_eq_true, ih, List.forall_mem_cons]

theorem shaped_of_isShaped {t : Tree} (h : t.isShaped = true) : t.Shaped := by
  induction t using induction_on_children with
  | step t ih =>
    cases t with
    | leaf field kind token =>
      simp only [isShaped, Bool.and_eq_true, decide_eq_true_eq] at h
      obtain ⟨⟨⟨⟨hcomment, hblock⟩, hend⟩, hfield⟩, herror⟩ := h
      exact .leaf hcomment hblock hend hfield herror
    | comment => exact .comment
    | missing => cases h
    | node field kind children =>
      simp only [isShaped, Bool.and_eq_true, Bool.or_eq_true, decide_eq_true_eq, areShaped_iff] at h
      obtain ⟨⟨hfits, hfield⟩, hchildren⟩ := h
      exact .node hfits (fun hbody => hfield.resolve_left (· hbody))
        fun c hc => ih c hc (hchildren c hc)

/-- The layout of trees can be computed. -/
theorem laid_of_checks {cs : List Char} {ts : List Tree} (hshaped : areShaped ts = true)
    (hordered : (piecesOf ts).Pairwise fun p q => p.span.Precedes q.span)
    (hslices : ∀ p ∈ piecesOf ts,
      Text.slice? cs p.span.start p.span.stop = some p.text.toList ∧ p.text ≠ "") :
    Laid cs ts := by
  refine ⟨fun t ht => shaped_of_isShaped (areShaped_iff.mp hshaped t ht), hordered, fun p hp => ?_⟩
  obtain ⟨hslice, hne⟩ := hslices p hp
  obtain ⟨pre, post, hcs, hpre⟩ := Text.exists_append_of_slice? hslice
  refine ⟨pre, post, hcs, hne, ?_⟩
  rw [hpre, Text.byteLength_of_slice? hslice]

end

/-! ## Trees within trees -/

/-- The first tree is the second, or stands in it at some depth. -/
inductive Within : Tree → Tree → Prop where

  | self (t : Tree) : Within t t

  | child {u c t : Tree} : c ∈ t.children → Within u c → Within u t

namespace Within

variable {cs : List Char} {u t : Tree}

theorem laid (h : Within u t) (ht : Laid cs [t]) : Laid cs [u] := by
  induction h with
  | self => exact ht
  | child hc _ ih => exact ih (ht.children.of_mem hc)

theorem pieces_subset (h : Within u t) : u.pieces ⊆ t.pieces := by
  induction h with
  | self => exact List.Subset.refl _
  | child hc _ ih => exact List.Subset.trans ih (pieces_subset_of_child hc)

theorem span_within (h : Within u t) (ht : Laid cs [t]) : t.start ≤ u.start ∧ u.stop ≤ t.stop := by
  induction h with
  | self => exact ⟨Nat.le_refl _, Nat.le_refl _⟩
  | child hc _ ih =>
    have hchild := ht.child_within hc
    have hrest := ih (ht.children.of_mem hc)
    omega

end Within

end Source.Tree

theorem Source.laid_of_parse? {cs : List Char} {root : Tree} (h : parse? (tokens cs) = some root) :
    root.kind = .sourceFile ∧ Tree.Laid cs root.children := by
  obtain ⟨trees, rfl, hshaped, hprefix⟩ := shaped_of_parse? h
  exact ⟨rfl, hshaped, (laidOut_tokens cs).sublist hprefix.sublist⟩

end LayoutLint
