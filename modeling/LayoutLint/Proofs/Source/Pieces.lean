import LayoutLint.Proofs.Source.Reads
import LayoutLint.Proofs.Text.LineTable

/-! # The pieces of a text

The lexemes of a text follow one another without a gap. The tokens and comments among them stand
in the text where their spans say, each after the one before it.
-/

namespace LayoutLint

/-- The piece is not empty, and the text has it at its span. -/
def Piece.Stands (cs : List Char) (p : Piece) : Prop :=
  ∃ pre post, cs = pre ++ (p.text.toList ++ post) ∧ p.text ≠ "" ∧
    p.span = ⟨Text.byteLength pre, Text.byteLength pre + Text.byteLength p.text.toList⟩

/-- The first span ends where the second starts, or before. -/
def Span.Precedes (s t : Span) : Prop := s.stop ≤ t.start

instance (s t : Span) : Decidable (s.Precedes t) := inferInstanceAs (Decidable (s.stop ≤ t.start))

theorem pairwise_stop_le {α : Type} (span : α → Span) {xs : List α}
    (hspans : ∀ x ∈ xs, (span x).start ≤ (span x).stop)
    (hordered : xs.Pairwise fun a b => (span a).Precedes (span b)) :
    xs.Pairwise fun a b => (span a).stop ≤ (span b).stop := by
  refine hordered.imp_of_mem fun _ hb h => ?_
  exact Nat.le_trans h (hspans _ hb)

namespace Piece.Stands

variable {cs : List Char} {p q : Piece}

theorem start_lt_stop (h : p.Stands cs) : p.span.start < p.span.stop := by
  obtain ⟨pre, post, -, htext, hspan⟩ := h
  have hpos : 0 < Text.byteLength p.text.toList := by
    refine Nat.pos_of_ne_zero fun hzero => htext ?_
    exact String.toList_inj.mp (Text.eq_nil_of_byteLength_eq_zero hzero)
  rw [hspan]
  exact Nat.lt_add_of_pos_right hpos

theorem slice?_eq (h : p.Stands cs) :
    Text.slice? cs p.span.start p.span.stop = some p.text.toList := by
  obtain ⟨pre, post, rfl, -, hspan⟩ := h
  rw [hspan]
  exact Text.slice?_append pre p.text.toList post

theorem isSome_slice? (hp : p.Stands cs) (hq : q.Stands cs) (hle : p.span.start ≤ q.span.stop) :
    (Text.slice? cs p.span.start q.span.stop).isSome := by
  obtain ⟨pre, post, rfl, -, hspan⟩ := hp
  obtain ⟨pre', post', hcs, -, hspan'⟩ := hq
  have hstart : p.span.start = Text.byteLength pre := by rw [hspan]
  have hstop : q.span.stop = Text.byteLength (pre' ++ q.text.toList) := by
    rw [hspan', Text.byteLength_append]
  rw [hstart, hstop] at hle ⊢
  rw [← List.append_assoc pre'] at hcs
  obtain ⟨mid, hmid⟩ := Text.exists_append_of_byteLength_le hcs hle
  rw [hcs, hmid, Text.byteLength_append, List.append_assoc, Text.slice?_append]
  rfl

end Piece.Stands

/-- The pieces stand in the text one after the other. -/
structure LaidOut (cs : List Char) (ps : List Piece) : Prop where
  ordered : ps.Pairwise fun p q => p.span.Precedes q.span
  stands : ∀ p ∈ ps, p.Stands cs

namespace Source

/-! ## Lexemes -/

def Lexeme.piece (l : Lexeme) : Piece := ⟨l.span, l.text⟩

theorem le_start_of_mem_lexemes {start : Nat} {cs : List Char} {l : Lexeme}
    (h : l ∈ lexemes start cs) : start ≤ l.start := by
  fun_induction lexemes start cs with
  | case1 => cases h
  | case2 start c cs kind n hat chars ih =>
    rcases List.mem_cons.mp h with rfl | h
    · exact Nat.le_refl start
    · exact Nat.le_trans (Nat.le_add_right _ _) (ih h)

theorem exists_append_of_mem_lexemes {start : Nat} {cs : List Char} {l : Lexeme}
    (h : l ∈ lexemes start cs) :
    ∃ before pre post, cs = pre ++ (l.chars ++ post) ∧ l.start = start + Text.byteLength pre ∧
      lexemes start cs = before ++ l :: lexemes (l.start + Text.byteLength l.chars) post ∧
      (∀ m ∈ before, m.start < l.start) ∧ 0 < Text.byteLength l.chars := by
  fun_induction lexemes start cs with
  | case1 => cases h
  | case2 start c cs kind n hat chars ih =>
    have hpos : 0 < Text.byteLength chars := by
      apply Nat.pos_of_ne_zero
      intro hzero
      exact List.cons_ne_nil _ _ (Text.eq_nil_of_byteLength_eq_zero hzero)
    have hcs : c :: cs = chars ++ cs.drop n := by
      rw [List.cons_append, List.take_append_drop]
    rcases List.mem_cons.mp h with rfl | h
    · exact ⟨[], [], cs.drop n, hcs, rfl, rfl, by simp, hpos⟩
    · obtain ⟨before, pre, post, hrest, hstart, hsplit, hbefore, hl⟩ := ih h
      refine ⟨⟨kind, chars, start⟩ :: before, chars ++ pre, post, ?_, ?_, ?_, ?_, hl⟩
      · rw [hcs, hrest, List.append_assoc]
      · rw [hstart, Text.byteLength_append, Nat.add_assoc]
      · rw [hsplit, List.cons_append]
      · intro m hm
        rcases List.mem_cons.mp hm with rfl | hm
        · rw [hstart, Nat.add_assoc]
          exact Nat.lt_add_of_pos_right (Nat.add_pos_left hpos _)
        · exact hbefore m hm

theorem laidOut_lexemes (pre cs : List Char) :
    LaidOut (pre ++ cs) ((lexemes (Text.byteLength pre) cs).map Lexeme.piece) := by
  generalize hstart : Text.byteLength pre = start
  fun_induction lexemes start cs generalizing pre with
  | case1 => exact ⟨.nil, by simp⟩
  | case2 start c cs kind n hat chars ih =>
    have hsplit : pre ++ c :: cs = (pre ++ chars) ++ cs.drop n := by
      simp only [chars, List.append_assoc, List.cons_append, List.take_append_drop]
    obtain ⟨hordered, hstands⟩ := ih (pre ++ chars) (by rw [Text.byteLength_append, hstart])
    rw [← hsplit] at hstands
    refine ⟨List.pairwise_cons.mpr ⟨fun p hp => ?_, hordered⟩, fun p hp => ?_⟩
    · obtain ⟨l, hl, rfl⟩ := List.mem_map.mp hp
      exact le_start_of_mem_lexemes hl
    · rcases List.mem_cons.mp hp with rfl | hp
      · refine ⟨pre, cs.drop n, ?_, ?_, ?_⟩
        · simpa [Lexeme.piece, Lexeme.text] using hsplit
        · simp [Lexeme.piece, Lexeme.text, chars]
        · simp [Lexeme.piece, Lexeme.text, Lexeme.span, hstart]
      · exact hstands p hp

/-! ## Tokens -/

/-- The lexeme is a token or a comment. -/
def Lexeme.isShown (l : Lexeme) : Bool := l.kind ≠ .blank && l.kind ≠ .newline

theorem utf8ByteSize_text (l : Lexeme) : l.text.utf8ByteSize = Text.byteLength l.chars := by
  rw [← Text.length_utf8, Text.utf8, Lexeme.text]
  rfl

theorem flatMap_pieces_tokensOf (stop : Nat) (newline : Bool) (comments : List Comment)
    (ls : List Lexeme) :
    (tokensOf stop newline comments ls).flatMap Token.pieces =
      comments.reverse.map Comment.piece ++ (ls.filter Lexeme.isShown).map Lexeme.piece := by
  have htoken : ∀ (kind : TokenKind) (l : Lexeme), l.tokenKind? = some kind →
      l.isShown = true ∧ kind ≠ .endOfText := by
    intro kind l h
    cases hl : l.kind <;> simp [Lexeme.tokenKind?, hl] at h <;> subst h <;>
      simp [Lexeme.isShown, hl]
  induction ls generalizing newline comments with
  | nil => simp [tokensOf, Token.pieces, Token.own]
  | cons l ls ih =>
    rw [tokensOf]
    split
    case h_1 kind hkind =>
      obtain ⟨hshown, hend⟩ := htoken kind l hkind
      rw [List.flatMap_cons, ih, List.filter_cons_of_pos hshown, List.map_cons]
      simp [Token.pieces, Token.own, hend, Token.span, Token.stop, utf8ByteSize_text,
        Lexeme.piece, Lexeme.span]
    case h_2 hkind =>
      split
      case isTrue hcomment =>
        have hshown : l.isShown = true := by simp [Lexeme.isShown, hcomment]
        rw [ih, List.filter_cons_of_pos hshown, List.map_cons, List.reverse_cons,
          List.map_append, List.append_assoc]
        rfl
      case isFalse hcomment =>
        have hhidden : ¬ l.isShown = true := by
          cases hl : l.kind <;> simp [Lexeme.tokenKind?, hl] at hkind <;>
            simp [Lexeme.isShown, hl] at hcomment ⊢
        rw [ih, List.filter_cons_of_neg hhidden]

theorem exists_withoutMark (cs : List Char) :
    ∃ pre, cs = pre ++ (withoutMark cs).2 ∧ Text.byteLength pre = (withoutMark cs).1 := by
  unfold withoutMark
  split
  · exact ⟨['\ufeff'], rfl, show Text.byteLength ['\ufeff'] = 3 by decide⟩
  · exact ⟨[], rfl, rfl⟩

/-- The tokens and comments of a text stand in it one after the other. -/
theorem laidOut_tokens (cs : List Char) : LaidOut cs ((tokens cs).flatMap Token.pieces) := by
  obtain ⟨pre, hcs, hpre⟩ := exists_withoutMark cs
  obtain ⟨hordered, hstands⟩ := laidOut_lexemes pre (withoutMark cs).2
  rw [← hcs, hpre] at hstands
  rw [hpre] at hordered
  have hsub := (List.filter_sublist
    (l := lexemes (withoutMark cs).1 (withoutMark cs).2) (p := Lexeme.isShown)).map Lexeme.piece
  rw [tokens, flatMap_pieces_tokensOf]
  exact ⟨hordered.sublist hsub, fun p hp => hstands p (hsub.subset hp)⟩

end Source

end LayoutLint
