import LayoutLint.Source.Grammar

/-! # What a grammar reads

Reading as a relation, without the bound on its depth, the mode and the order of alternatives.
Whatever a grammar reads, it moves each token and each comment from the tokens into the scope, and
none changes its place among the others.
-/

namespace LayoutLint

namespace Source.Grammar

variable {ρ : Type}

/-- The grammar makes the scope `acc'` of `acc` by reading the tokens `ts` down to `ts'`. -/
inductive Reads (body : ρ → Grammar ρ) :
    Grammar ρ → List Tree → List Token → List Tree → List Token → Prop where

  | empty {acc ts} : Reads body .empty acc ts acc ts

  | sameLine {acc ts} : Reads body .sameLine acc ts acc ts

  | noBlock {acc ts} : Reads body .noBlock acc ts acc ts

  | ahead {a acc ts} : Reads body (.ahead a) acc ts acc ts

  | mark {text t acc ts} : isMark text t = true →
      Reads body (.mark text) acc (t :: ts) (push (.leaf none .mark t) t acc) ts

  | word {kind texts t acc ts} : t.kind = .word →
      Reads body (.word kind texts) acc (t :: ts) (push (.leaf none kind t) t acc) ts

  | wordAmong {kind texts t acc ts} : t.kind = .word →
      Reads body (.wordAmong kind texts) acc (t :: ts) (push (.leaf none kind t) t acc) ts

  | literal {kind t acc ts} :
      Reads body (.literal t.kind kind) acc (t :: ts) (push (.leaf none kind t) t acc) ts

  | lineEnd {acc ts} : Reads body .terminator acc ts acc ts

  | semicolon {text t acc ts} : isMark text t = true → text = ";" ∨ text = "\x00" →
      Reads body .terminator acc (t :: ts) (push (.leaf none .mark t) t acc) ts

  | endOfText {t acc} : t.kind = .endOfText →
      Reads body .endOfText acc [t] (t.comments.reverse.map Tree.comment ++ acc) []

  | seq {a b acc acc' acc'' ts ts' ts''} : Reads body a acc ts acc' ts' →
      Reads body b acc' ts' acc'' ts'' → Reads body (.seq a b) acc ts acc'' ts''

  | altLeft {a b acc acc' ts ts'} : Reads body a acc ts acc' ts' →
      Reads body (.alt a b) acc ts acc' ts'

  | altRight {a b acc acc' ts ts'} : Reads body b acc ts acc' ts' →
      Reads body (.alt a b) acc ts acc' ts'

  | manyStop {a acc ts} : Reads body (.many a) acc ts acc ts

  | manyStep {a acc acc' acc'' ts ts' ts''} : Reads body a acc ts acc' ts' →
      Reads body (.many a) acc' ts' acc'' ts'' → Reads body (.many a) acc ts acc'' ts''

  | scope {a inner acc ts ts'} : Reads body a [] ts inner ts' →
      Reads body (.scope a) acc ts (inner ++ acc) ts'

  | wrap {kind field acc ts} : Reads body (.wrap kind field) acc ts (wrapAll kind field acc) ts

  | label {field a inner acc ts ts'} : Reads body a [] ts inner ts' →
      Reads body (.label field a) acc ts (labelLast field inner ++ acc) ts'

  | inMode {mode a acc acc' ts ts'} : Reads body a acc ts acc' ts' →
      Reads body (.inMode mode a) acc ts acc' ts'

  | phrase {name acc acc' ts ts'} : Reads body (body name) acc ts acc' ts' →
      Reads body (.phrase name) acc ts acc' ts'

theorem readToken_eq_some {kind : NodeKind} {test : Token → Bool} {acc acc' : List Tree}
    {ts ts' : List Token} (h : readToken kind test acc ts = some (acc', ts')) :
    ∃ t, ts = t :: ts' ∧ test t = true ∧ acc' = push (.leaf none kind t) t acc := by
  cases ts with
  | nil => cases h
  | cons t ts =>
    rw [readToken] at h
    split at h
    case isTrue ht =>
      cases h
      exact ⟨t, rfl, ht, rfl⟩
    case isFalse => cases h

theorem reads_of_readTerminator {body : ρ → Grammar ρ} {acc acc' : List Tree}
    {ts ts' : List Token} (h : readTerminator acc ts = some (acc', ts')) :
    Reads body .terminator acc ts acc' ts' := by
  cases ts with
  | nil => cases h
  | cons t ts =>
    rw [readTerminator] at h
    split at h
    case isTrue =>
      cases h
      exact .lineEnd
    case isFalse =>
      split at h
      case isTrue hmark =>
        cases h
        rcases Bool.or_eq_true_iff.mp hmark with hmark | hmark
        · exact .semicolon hmark (.inl rfl)
        · exact .semicolon hmark (.inr rfl)
      case isFalse => cases h

theorem reads_of_readEnd {body : ρ → Grammar ρ} {acc acc' : List Tree} {ts ts' : List Token}
    (h : readEnd acc ts = some (acc', ts')) : Reads body .endOfText acc ts acc' ts' := by
  match ts with
  | [] => cases h
  | [t] =>
    rw [readEnd] at h
    split at h
    case isTrue ht =>
      cases h
      exact .endOfText ht
    case isFalse => cases h
  | _ :: _ :: _ => cases h

/-! ## One step of reading -/

section

variable {body : ρ → Grammar ρ} {depth : Nat} {a b : Grammar ρ} {mode : Mode}
  {acc acc' : List Tree} {ts ts' : List Token}

theorem eq_of_read_sameLine
    (h : read body (depth + 1) .sameLine mode acc ts = some (acc', ts')) :
    (acc', ts') = (acc, ts) := by
  rw [read] at h
  split at h <;> cases h
  rfl

theorem eq_of_read_noBlock (h : read body (depth + 1) .noBlock mode acc ts = some (acc', ts')) :
    (acc', ts') = (acc, ts) := by
  rw [read] at h
  split at h <;> cases h
  rfl

theorem eq_of_read_ahead (h : read body (depth + 1) (.ahead a) mode acc ts = some (acc', ts')) :
    (acc', ts') = (acc, ts) := by
  rw [read] at h
  split at h <;> cases h
  rfl

theorem exists_of_read_seq
    (h : read body (depth + 1) (.seq a b) mode acc ts = some (acc', ts')) :
    ∃ mid rest, read body depth a mode acc ts = some (mid, rest) ∧
      read body depth b mode mid rest = some (acc', ts') := by
  rw [read] at h
  split at h
  case h_1 => cases h
  case h_2 mid rest ha => exact ⟨mid, rest, ha, h⟩

theorem or_of_read_alt (h : read body (depth + 1) (.alt a b) mode acc ts = some (acc', ts')) :
    read body depth a mode acc ts = some (acc', ts') ∨
      read body depth b mode acc ts = some (acc', ts') := by
  rw [read] at h
  split at h
  case h_1 r ha => exact .inl (ha.trans h)
  case h_2 => exact .inr h

theorem or_of_read_many (h : read body (depth + 1) (.many a) mode acc ts = some (acc', ts')) :
    (acc', ts') = (acc, ts) ∨ ∃ mid rest, read body depth a mode acc ts = some (mid, rest) ∧
      read body depth (.many a) mode mid rest = some (acc', ts') := by
  rw [read] at h
  split at h
  case h_1 =>
    cases h
    exact .inl rfl
  case h_2 mid rest ha => exact .inr ⟨mid, rest, ha, h⟩

theorem exists_of_read_scope
    (h : read body (depth + 1) (.scope a) mode acc ts = some (acc', ts')) :
    ∃ inner, read body depth a mode [] ts = some (inner, ts') ∧ acc' = inner ++ acc := by
  rw [read] at h
  split at h <;> cases h
  case h_2 inner ha => exact ⟨inner, ha, rfl⟩

theorem exists_of_read_label {field : Field}
    (h : read body (depth + 1) (.label field a) mode acc ts = some (acc', ts')) :
    ∃ inner, read body depth a mode [] ts = some (inner, ts') ∧
      acc' = labelLast field inner ++ acc := by
  rw [read] at h
  split at h <;> cases h
  case h_2 inner ha => exact ⟨inner, ha, rfl⟩

end

theorem reads_of_read {body : ρ → Grammar ρ} {depth : Nat} {g : Grammar ρ} {mode : Mode}
    {acc acc' : List Tree} {ts ts' : List Token}
    (h : read body depth g mode acc ts = some (acc', ts')) : Reads body g acc ts acc' ts' := by
  induction depth generalizing g mode acc ts acc' ts' with
  | zero => cases h
  | succ depth ih =>
    cases g with
    | empty => cases h; exact .empty
    | fail => cases h
    | mark text =>
      obtain ⟨t, rfl, ht, rfl⟩ := readToken_eq_some h
      exact .mark ht
    | word kind texts =>
      obtain ⟨t, rfl, ht, rfl⟩ := readToken_eq_some h
      exact .word (by simpa using (Bool.and_eq_true_iff.mp ht).1)
    | wordAmong kind texts =>
      obtain ⟨t, rfl, ht, rfl⟩ := readToken_eq_some h
      exact .wordAmong (by simpa using (Bool.and_eq_true_iff.mp ht).1)
    | literal token kind =>
      obtain ⟨t, rfl, ht, rfl⟩ := readToken_eq_some h
      obtain rfl : t.kind = token := by simpa using ht
      exact .literal
    | sameLine => cases eq_of_read_sameLine h; exact .sameLine
    | noBlock => cases eq_of_read_noBlock h; exact .noBlock
    | terminator => exact reads_of_readTerminator h
    | endOfText => exact reads_of_readEnd h
    | seq a b =>
      obtain ⟨_, _, ha, hb⟩ := exists_of_read_seq h
      exact .seq (ih ha) (ih hb)
    | alt a b =>
      obtain ha | hb := or_of_read_alt h
      · exact .altLeft (ih ha)
      · exact .altRight (ih hb)
    | many a =>
      obtain hstop | ⟨_, _, ha, hmany⟩ := or_of_read_many h
      · cases hstop; exact .manyStop
      · exact .manyStep (ih ha) (ih hmany)
    | scope a =>
      obtain ⟨inner, ha, rfl⟩ := exists_of_read_scope h
      exact .scope (ih ha)
    | wrap kind field => cases h; exact .wrap
    | label field a =>
      obtain ⟨inner, ha, rfl⟩ := exists_of_read_label h
      exact .label (ih ha)
    | ahead a => cases eq_of_read_ahead h; exact .ahead
    | inMode mode' a => exact .inMode (ih h)
    | phrase name => exact .phrase (ih h)

end Source.Grammar

/-! ## What trees hold -/

namespace Source

namespace Tree

section

variable {α : Type} (own : Token → List α) (note : Comment → List α)

mutual

/-- What is made of the tokens and comments of a tree, in its order. -/
def gather : Tree → List α
  | leaf _ _ t => own t
  | comment c => note c
  | missing _ _ _ _ => []
  | node _ _ cs => gatherOf cs

def gatherOf : List Tree → List α
  | [] => []
  | t :: ts => t.gather ++ gatherOf ts

end

theorem gatherOf_eq_flatMap (ts : List Tree) :
    gatherOf own note ts = ts.flatMap (gather own note) := by
  induction ts with
  | nil => rfl
  | cons t ts ih => rw [gatherOf, ih, List.flatMap_cons]

theorem gatherOf_append (ts us : List Tree) :
    gatherOf own note (ts ++ us) = gatherOf own note ts ++ gatherOf own note us := by
  simp only [gatherOf_eq_flatMap, List.flatMap_append]

theorem gatherOf_singleton (t : Tree) : gatherOf own note [t] = t.gather own note :=
  List.append_nil _

theorem gather_withField (f : Field) (t : Tree) :
    (t.withField f).gather own note = t.gather own note := by
  cases t <;> rfl

theorem gatherOf_map_comment (cs : List Comment) :
    gatherOf own note (cs.map comment) = cs.flatMap note := by
  rw [gatherOf_eq_flatMap, List.flatMap_map]
  rfl

end

end Tree

namespace Grammar

open LayoutLint.Source.Tree

section

variable {α : Type} (own : Token → List α) (note : Comment → List α)

def gatherToken (t : Token) : List α := t.comments.flatMap note ++ own t

theorem gatherOf_reverse_push (kind : NodeKind) (t : Token) (acc : List Tree) :
    gatherOf own note (push (.leaf none kind t) t acc).reverse =
      gatherOf own note acc.reverse ++ gatherToken own note t := by
  rw [push, List.reverse_cons, List.reverse_append, List.map_reverse, List.reverse_reverse,
    gatherOf_append, gatherOf_append, gatherOf_map_comment, gatherOf_singleton, List.append_assoc]
  rfl

theorem gatherOf_reverse_wrapAll (kind : NodeKind) (field : Option Field) (acc : List Tree) :
    gatherOf own note (wrapAll kind field acc).reverse = gatherOf own note acc.reverse := by
  rw [wrapAll, List.reverse_cons, List.reverse_reverse, gatherOf_append, gatherOf_singleton, gather,
    ← gatherOf_append, List.takeWhile_append_dropWhile]

theorem gatherOf_reverse_labelLast (field : Field) (acc : List Tree) :
    gatherOf own note (labelLast field acc).reverse = gatherOf own note acc.reverse := by
  cases acc with
  | nil => rfl
  | cons t acc =>
    rw [labelLast, List.reverse_cons, List.reverse_cons, gatherOf_append, gatherOf_append,
      gatherOf_singleton, gatherOf_singleton, gather_withField]

/-- What is read goes from the tokens into the scope. -/
theorem Reads.gather_eq (hend : ∀ t, t.kind = .endOfText → own t = []) {ρ : Type}
    {body : ρ → Grammar ρ} {g : Grammar ρ} {acc acc' : List Tree} {ts ts' : List Token}
    (h : Reads body g acc ts acc' ts') :
    gatherOf own note acc'.reverse ++ ts'.flatMap (gatherToken own note) =
      gatherOf own note acc.reverse ++ ts.flatMap (gatherToken own note) := by
  induction h with
  | empty | sameLine | noBlock | ahead | lineEnd | manyStop => rfl
  | mark | word | wordAmong | literal | semicolon =>
    rw [gatherOf_reverse_push, List.flatMap_cons, List.append_assoc]
  | @endOfText t acc ht =>
    rw [List.reverse_append, List.map_reverse, List.reverse_reverse, gatherOf_append,
      gatherOf_map_comment, List.flatMap_singleton, gatherToken, hend t ht, List.flatMap_nil,
      List.append_nil, List.append_nil]
  | seq _ _ iha ihb | manyStep _ _ iha ihb => rw [ihb, iha]
  | altLeft _ ih | altRight _ ih | inMode _ ih | phrase _ ih => exact ih
  | scope _ ih =>
    rw [List.reverse_append, gatherOf_append, List.append_assoc, ih]
    rfl
  | wrap => rw [gatherOf_reverse_wrapAll]
  | label _ ih =>
    rw [List.reverse_append, gatherOf_append, gatherOf_reverse_labelLast, List.append_assoc, ih]
    rfl

end

end Grammar

end Source

/-! ## Pieces -/

/-- A stretch of the text, and what stands there. -/
structure Piece where
  span : Span
  text : String

def Comment.piece (c : Comment) : Piece := ⟨c.span, c.text⟩

namespace Source

/-- The token itself; at the end of the text there is none. -/
def Token.own (t : Token) : List Piece := if t.kind = .endOfText then [] else [⟨t.span, t.text⟩]

def Token.pieces (t : Token) : List Piece := t.comments.map Comment.piece ++ t.own

namespace Tree

mutual

def pieces : Tree → List Piece
  | leaf _ _ t => t.own
  | comment c => [c.piece]
  | missing _ _ _ _ => []
  | node _ _ cs => piecesOf cs

def piecesOf : List Tree → List Piece
  | [] => []
  | t :: ts => t.pieces ++ piecesOf ts

end

mutual

theorem pieces_eq_gather (t : Tree) : t.pieces = t.gather Token.own fun c => [c.piece] := by
  cases t with
  | leaf => rfl
  | comment => rfl
  | missing => rfl
  | node field kind cs => exact piecesOf_eq_gatherOf cs

theorem piecesOf_eq_gatherOf (ts : List Tree) :
    piecesOf ts = gatherOf Token.own (fun c => [c.piece]) ts := by
  cases ts with
  | nil => rfl
  | cons t ts => rw [piecesOf, gatherOf, pieces_eq_gather t, piecesOf_eq_gatherOf ts]

end

theorem piecesOf_eq_flatMap (ts : List Tree) : piecesOf ts = ts.flatMap pieces := by
  induction ts with
  | nil => rfl
  | cons t ts ih => rw [piecesOf, ih, List.flatMap_cons]

@[simp] theorem piecesOf_append (ts us : List Tree) :
    piecesOf (ts ++ us) = piecesOf ts ++ piecesOf us := by
  simp only [piecesOf_eq_flatMap, List.flatMap_append]

theorem piecesOf_singleton (t : Tree) : piecesOf [t] = t.pieces := List.append_nil _

end Tree

open LayoutLint.Source.Tree in
theorem Grammar.Reads.pieces_eq {ρ : Type} {body : ρ → Grammar ρ} {g : Grammar ρ}
    {acc acc' : List Tree} {ts ts' : List Token} (h : Reads body g acc ts acc' ts') :
    piecesOf acc'.reverse ++ ts'.flatMap Token.pieces =
      piecesOf acc.reverse ++ ts.flatMap Token.pieces := by
  have htoken : Token.pieces = gatherToken Token.own fun c => [c.piece] := by
    funext t
    rw [Token.pieces, gatherToken, List.map_eq_flatMap]
  rw [piecesOf_eq_gatherOf, piecesOf_eq_gatherOf, htoken]
  exact h.gather_eq Token.own _ fun t ht => if_pos ht

end Source

end LayoutLint
