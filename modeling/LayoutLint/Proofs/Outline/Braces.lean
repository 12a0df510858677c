import LayoutLint.Proofs.Outline.Visits
import Mathlib.Data.List.Find

/-! # Braces

A node with braces ends with the closing one. Everything else that it holds stands before the
opening brace or between the two, and so do the braces of the nodes in it.
-/

namespace LayoutLint

/-- The blocks do not meet, or one of them stands between the braces of the other. -/
def Block.Apart (a b : Block) : Prop :=
  a.rbrace < b.lbrace ∨ b.rbrace < a.lbrace ∨
    (a.lbrace < b.lbrace ∧ b.rbrace < a.rbrace) ∨ (b.lbrace < a.lbrace ∧ a.rbrace < b.rbrace)

theorem Block.Apart.symm {a b : Block} (h : a.Apart b) : b.Apart a := by
  unfold Block.Apart at *
  omega

namespace Outline

open Source

/-! ## The braces of one node -/

theorem isMark_iff {c : Tree} (h : c.isMissing = false) {text : String} (hne : text ≠ "") :
    c.isMark text = true ↔ c.kind = .mark ∧ c.text = text := by
  cases c with
  | leaf => simp [Tree.isMark, Tree.kind, Tree.text]
  | comment => simp [Tree.isMark, Tree.kind]
  | missing => cases h
  | node => simp [Tree.isMark, Tree.text, hne.symm]

/-- Among children that all stand in the text the braces are found by their look. -/
theorem bracePair?_eq {t : Tree} (h : ∀ c ∈ t.children, c.isMissing = false) : bracePair? t =
    (t.children.find? (·.look = .opening)).bind fun left =>
      (t.children.reverse.find? (·.look = .closing)).map fun right =>
        (left.start, right.start) := by
  have hleft : t.children.find? (·.isMark "\x7b") = t.children.find? (·.look = .opening) := by
    refine List.find?_congr fun c hc => ?_
    rw [Bool.eq_iff_iff, decide_eq_true_eq, isMark_iff (h c hc) (by decide), Tree.look,
      Look.of_eq_opening_iff]
  have hright : t.children.reverse.find? (fun c => c.isMark "\x7d" && !c.isMissing) =
      t.children.reverse.find? (·.look = .closing) := by
    refine List.find?_congr fun c hc => ?_
    have hin := h c (List.mem_reverse.mp hc)
    rw [hin, Bool.not_false, Bool.and_true, Bool.eq_iff_iff, decide_eq_true_eq,
      isMark_iff hin (by decide), Tree.look, Look.of_eq_closing_iff]
  rw [bracePair?, hleft, hright]
  simp only [Option.bind_eq_bind, Option.pure_def, Option.map_eq_bind]
  rfl

theorem exists_braces {t : Tree} (ht : t.Shaped) (hkind : t.kind.isBraced = true) {l r : Nat}
    (hpair : bracePair? t = some (l, r)) :
    ∃ pre left mid right, t.children = pre ++ left :: (mid ++ [right]) ∧
      left.look = .opening ∧ right.look = .closing ∧ left.start = l ∧ right.start = r ∧
      ∀ c ∈ pre, c.look ≠ .opening := by
  rw [bracePair?_eq ht.children_in_text] at hpair
  obtain ⟨left, hleft, hpair⟩ := Option.bind_eq_some_iff.mp hpair
  obtain ⟨right, hright, hpair⟩ := Option.map_eq_some_iff.mp hpair
  cases hpair
  obtain ⟨hopening, pre, post, hchildren, hpre⟩ := List.find?_eq_some_iff_append.mp hleft
  rw [decide_eq_true_eq] at hopening
  have hfits := Profile.fits_of_eq (ht.fits (by rw [hchildren]; simp))
  obtain ⟨rest, last, hlast, hclosing⟩ := Profile.exists_last (hfits.closing hkind)
  obtain rfl : last = right := by
    rw [hlast, List.reverse_append, List.reverse_singleton, List.singleton_append,
      List.find?_cons_of_pos (by simpa using hclosing)] at hright
    exact Option.some.inj hright
  have hsplit := hchildren.symm.trans hlast
  rcases List.eq_nil_or_concat' post with rfl | ⟨mid, c, rfl⟩
  · rw [List.singleton_inj.mp (List.append_inj_right' hsplit rfl), hclosing] at hopening
    cases hopening
  · rw [← List.cons_append, ← List.append_assoc] at hsplit
    obtain rfl := List.singleton_inj.mp (List.append_inj_right' hsplit rfl)
    exact ⟨pre, left, mid, c, hchildren, hopening, hclosing, rfl, rfl, by simpa using hpre⟩

/-- A node of the text has an opening brace at `l` and ends with the closing one at `r`. -/
structure Braced (cs : List Char) (t : Tree) (l r : Nat) : Prop where
  start_le : t.start ≤ l
  lt : l < r
  lt_stop : r < t.stop
  opening : Text.slice? cs l (l + 1) = some ['\x7b']
  closing : Text.slice? cs r (r + 1) = some ['\x7d']
  /-- What the node holds else stands before its braces or between them. -/
  child : ∀ c ∈ t.namedChildren, c.stop ≤ l ∨ (l < c.start ∧ c.stop ≤ r)

section

variable {cs : List Char} {t u c : Tree} {l r : Nat}

theorem mark_spec (h : Tree.Laid cs [c]) {text : String} (htext : c.text = text)
    (hkind : c.kind = .mark) (hne : text ≠ "") :
    Text.slice? cs c.start c.stop = some text.toList ∧ c.stop = c.start + text.utf8ByteSize := by
  subst htext
  cases h.shaped_self with
  | @leaf field kind token _ _ ht =>
    have hpiece : (⟨token.span, token.text⟩ : Piece) ∈ (Tree.leaf field kind token).pieces := by
      rw [Tree.pieces, Token.own, if_neg ht]
      exact List.mem_singleton_self _
    exact ⟨(h.pieces_self.stands _ hpiece).slice?_eq, rfl⟩
  | comment => cases hkind
  | node => exact absurd rfl hne

theorem braced_of_bracePair? (h : Tree.Laid cs [t]) (hkind : t.kind.isBraced = true)
    (hpair : bracePair? t = some (l, r)) : Braced cs t l r := by
  obtain ⟨pre, left, mid, right, hchildren, hleft, hright, rfl, rfl, -⟩ :=
    exists_braces h.shaped_self hkind hpair
  have hleft' := Look.of_eq_opening_iff.mp hleft
  have hright' := Look.of_eq_closing_iff.mp hright
  have hlmem : left ∈ t.children := by rw [hchildren]; simp
  have hrmem : right ∈ t.children := by rw [hchildren]; simp
  obtain ⟨hlslice, hlstop⟩ := mark_spec (h.children.of_mem hlmem) hleft'.2 hleft'.1 (by decide)
  obtain ⟨hrslice, hrstop⟩ := mark_spec (h.children.of_mem hrmem) hright'.2 hright'.1 (by decide)
  have hlwithin := h.child_within hlmem
  have hrwithin := h.child_within hrmem
  have hlone : left.stop = left.start + 1 := hlstop
  have hrone : right.stop = right.start + 1 := hrstop
  have hordered := h.children.pairwise
  rw [hchildren] at hordered
  obtain ⟨-, hrest, hpre⟩ := List.pairwise_append.mp hordered
  obtain ⟨hafter, hrest⟩ := List.pairwise_cons.mp hrest
  have hbefore := (List.pairwise_append.mp hrest).2.2
  have hlr : left.stop ≤ right.start := hafter right (by simp)
  refine ⟨hlwithin.1, by omega, by omega, hlone ▸ hlslice, hrone ▸ hrslice, fun c hc => ?_⟩
  obtain ⟨hc, hnamed⟩ := Tree.mem_namedChildren.mp hc
  rw [hchildren] at hc
  rcases List.mem_append.mp hc with hc | hc
  · exact .inl (hpre c hc left List.mem_cons_self)
  rcases List.mem_cons.mp hc with rfl | hc
  · exact absurd hleft'.1 hnamed
  rcases List.mem_append.mp hc with hc | hc
  · have hlc : left.stop ≤ c.start := hafter c (List.mem_append_left _ hc)
    have hcr : c.stop ≤ right.start := hbefore c hc right List.mem_cons_self
    exact .inr ⟨by omega, hcr⟩
  · rw [List.mem_singleton.mp hc] at hnamed
    exact absurd hright'.1 hnamed

/-- A block starts with its brace, so all that is no comment stands between the braces. -/
theorem between_of_block (h : Tree.Laid cs [t]) (hkind : t.kind = .block)
    (hpair : bracePair? t = some (l, r)) (hc : c ∈ t.namedChildren)
    (hcomment : c.isComment = false) : l < c.start ∧ c.stop ≤ r := by
  have hbraced := braced_of_bracePair? h (by rw [hkind]; rfl) hpair
  have hlaid := h.namedChildren.of_mem hc
  obtain ⟨hmem, hnamed⟩ := Tree.mem_namedChildren.mp hc
  have hfits := Profile.fits_of_eq (h.shaped_self.fits (List.ne_nil_of_mem hmem))
  obtain ⟨pre, first, post, hchildren, hopening, hpre⟩ :=
    Profile.exists_first (hfits.opening hkind)
  obtain rfl : first.start = l := by
    rw [bracePair?_eq h.shaped_self.children_in_text] at hpair
    obtain ⟨left, hleft, hpair⟩ := Option.bind_eq_some_iff.mp hpair
    obtain ⟨right, -, hpair⟩ := Option.map_eq_some_iff.mp hpair
    have hnone : pre.find? (·.look = .opening) = none := by
      simp only [List.find?_eq_none, decide_eq_true_eq]
      intro x hx hlook
      rw [hpre x hx] at hlook
      cases hlook
    rw [hchildren, List.find?_append, hnone, Option.none_or,
      List.find?_cons_of_pos (by simpa using hopening)] at hleft
    rw [Option.some.inj hleft]
    exact congrArg Prod.fst hpair
  have hordered := h.children.pairwise
  rw [hchildren] at hordered hmem
  have hlt : first.start < c.start := by
    rcases List.mem_append.mp hmem with hmem | hmem
    · rw [Tree.look_eq_comment_iff.mp (hpre c hmem)] at hcomment
      cases hcomment
    rcases List.mem_cons.mp hmem with rfl | hmem
    · exact absurd (Look.of_eq_opening_iff.mp hopening).1 hnamed
    · have hle : first.stop ≤ c.start :=
        (List.pairwise_cons.mp (List.pairwise_append.mp hordered).2.1).1 c hmem
      have hfirst := (h.children.of_mem (t := first) (by rw [hchildren]; simp)).start_lt_stop
      omega
  rcases hbraced.child c hc with hbefore | hbetween
  · have := hlaid.start_lt_stop
    omega
  · exact hbetween

theorem apart_of_comes {k k' : BlockKind} {l' r' : Nat} (ht : Tree.Laid cs [t])
    (hcomes : Comes t u) (htb : Braced cs t l r) (hub : Braced cs u l' r') :
    Block.Apart ⟨l, r, k⟩ ⟨l', r', k'⟩ := by
  unfold Block.Apart
  have := hub.start_le
  have := hub.lt_stop
  have := htb.lt_stop
  rcases hcomes with ⟨c, hc, hwithin⟩ | hprecedes
  · have hspan := hwithin.span_within (ht.children.of_mem (Tree.mem_namedChildren.mp hc).1)
    rcases htb.child c hc with hbefore | hbetween <;> simp only <;> omega
  · have hle : t.stop ≤ u.start := hprecedes
    simp only
    omega

end

end Outline

end LayoutLint
