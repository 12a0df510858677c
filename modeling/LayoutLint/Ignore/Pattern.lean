/-! # Patterns of ignore files

Patterns over the bytes of a path. Here `*` and `?` stay within a component, `**` runs over
components, and `{a,b}` gives a choice.
-/

namespace LayoutLint.Ignore

inductive Piece where
  | byte (b : UInt8)
  /-- One byte inside a component. -/
  | one
  /-- Any bytes inside a component. -/
  | run
  | set (negated : Bool) (ranges : List (UInt8 × UInt8))
  /-- Any components at the start, with the slash after them. -/
  | leading
  /-- A slash, or any components with the slashes around them. -/
  | inner
  /-- A slash and all that follows. -/
  | trailing
  deriving DecidableEq, Repr

/-- A choice of sequences of pieces. -/
abbrev Pattern := List (List Piece)

/-! ## Sets -/

inductive SetReading where
  | unclosed
  /-- A range ends before it starts. -/
  | invalid
  | closed (ranges : List (Char × Char)) (rest : List Char)

/-- Read a set up to its closing bracket. A bracket or a dash that comes first stands for itself,
and so does a dash before the closing bracket. -/
def readSet (first inRange : Bool) (ranges : List (Char × Char)) : List Char → SetReading
  | [] => .unclosed
  | c :: rest =>
    if c = ']' && !first then
      .closed (if inRange then ('-', '-') :: ranges else ranges) rest
    else if inRange then
      match ranges with
      | (low, _) :: others =>
        if low ≤ c then readSet false false ((low, c) :: others) rest else .invalid
      | [] => .invalid
    else if c = '-' && !first then readSet false true ranges rest
    else readSet false false ((c, c) :: ranges) rest

theorem length_readSet {text : List Char} {first inRange : Bool}
    {ranges found : List (Char × Char)} {rest : List Char}
    (h : readSet first inRange ranges text = .closed found rest) : rest.length < text.length := by
  induction text generalizing first inRange ranges with
  | nil => simp [readSet] at h
  | cons c text ih =>
    simp only [readSet] at h
    split at h
    · simp only [SetReading.closed.injEq] at h
      simp [h.2]
    · split at h
      · split at h
        · split at h
          · exact Nat.lt_succ_of_lt (ih h)
          · simp at h
        · simp at h
      · split at h
        · exact Nat.lt_succ_of_lt (ih h)
        · exact Nat.lt_succ_of_lt (ih h)

def isNegation (c : Char) : Bool := c = '!' || c = '^'

/-- The set after an opening bracket, and whether it is a complement. -/
def readWholeSet (text : List Char) : Bool × SetReading :=
  match text with
  | c :: rest =>
    if isNegation c then (true, readSet true false [] rest)
    else (false, readSet true false [] (c :: rest))
  | [] => (false, .unclosed)

theorem length_readWholeSet {text : List Char} {negated : Bool} {found : List (Char × Char)}
    {rest : List Char} (h : readWholeSet text = (negated, .closed found rest)) :
    rest.length < text.length := by
  unfold readWholeSet at h
  split at h
  · split at h
    · simp only [Prod.mk.injEq] at h
      exact Nat.lt_succ_of_lt (length_readSet h.2)
    · simp only [Prod.mk.injEq] at h
      exact length_readSet h.2
  · simp at h

def bytesOf (c : Char) : List UInt8 := String.utf8EncodeChar c

/-- A range of characters as ranges of bytes, written one after the other: only the last byte of
the first and the first byte of the last character make a range. -/
def byteRanges (range : Char × Char) : List (UInt8 × UInt8) :=
  let single (b : UInt8) := (b, b)
  let low := bytesOf range.1
  let high := bytesOf range.2
  if range.1 = range.2 then low.map single
  else
    low.dropLast.map single ++ [(low.getLastD 0, high.headD 0)] ++ high.tail.map single

/-! ## Reading -/

/-- What has been read of a pattern, or of a branch of a choice. The pieces stand last first. -/
structure Branch where
  alternatives : List (List Piece) := [[]]
  started : Bool := false

namespace Branch

def push (b : Branch) (p : Piece) : Branch := ⟨b.alternatives.map (p :: ·), true⟩

def pushChar (b : Branch) (c : Char) : Branch := (bytesOf c).foldl (fun b x => b.push (.byte x)) b

def last? (b : Branch) : Option Piece := b.alternatives.head?.bind List.head?

/-- Put `p` in the place of the last piece, unless that runs over components already. -/
def turn (b : Branch) (p : Piece) : Branch :=
  match b.last? with
  | some .leading => b
  | some .trailing => b
  | _ => ⟨b.alternatives.map fun pieces => p :: pieces.tail, true⟩

/-- Append a choice; empty branches of it do not count. -/
def pushChoice (b : Branch) (branches : List Branch) : Branch :=
  let full := (branches.filter fun b => b.alternatives ≠ [[]]).flatMap Branch.alternatives
  let choice := if full.isEmpty then [[]] else full
  ⟨b.alternatives.flatMap fun outer => choice.map (· ++ outer), true⟩

end Branch

/-- An open choice: its branches so far, and what came before it. -/
structure Group where
  branches : List Branch
  outer : Branch

structure State where
  current : Branch := {}
  groups : List Group := []
  /-- After a bracket without an end, brackets stand for themselves. -/
  literalBrackets : Bool := false

namespace State

def push (s : State) (p : Piece) : State := { s with current := s.current.push p }

def pushChar (s : State) (c : Char) : State := { s with current := s.current.pushChar c }

def openChoice (s : State) : State :=
  { s with current := {}, groups := ⟨[], s.current⟩ :: s.groups }

/-- A comma outside all choices stands for itself. -/
def comma (s : State) : State :=
  match s.groups with
  | [] => s.pushChar ','
  | g :: groups =>
    { s with current := {}, groups := ⟨g.branches ++ [s.current], g.outer⟩ :: groups }

def closeChoice? (s : State) : Option State :=
  match s.groups with
  | [] => none
  | g :: groups =>
    some { s with current := g.outer.pushChoice (g.branches ++ [s.current]), groups }

/-- Whether `**` here begins a component, after the character `last`. -/
def startsComponent (s : State) (last : Option Char) : Bool :=
  last = some '/' || (!s.groups.isEmpty && (last = some ',' || last = some '\x7b'))

/-- Whether a choice goes on or ends here. -/
def endsBranch (s : State) (c : Char) : Bool :=
  !s.groups.isEmpty && (c = ',' || c = '\x7d')

def turn (s : State) (p : Piece) : State := { s with current := s.current.turn p }

end State

/-- Read a pattern after the character `last`; `none` if it is malformed. -/
def parseFrom (last : Option Char) (s : State) (text : List Char) : Option State :=
  match text with
  | [] => some s
  | '*' :: '*' :: rest =>
    let plain := (s.push .run).push .run
    if !s.current.started then
      match rest with
      | [] => some (s.push .leading)
      | c :: rest =>
        if c = '/' then parseFrom (some '/') (s.push .leading) rest
        else parseFrom (some '*') plain (c :: rest)
    else if !s.startsComponent last then parseFrom (some '*') plain rest
    else
      match rest with
      | [] => some (s.turn .trailing)
      | c :: rest =>
        if c = '/' then parseFrom (some '/') (s.turn .inner) rest
        else if s.endsBranch c then parseFrom (some '*') (s.turn .trailing) (c :: rest)
        else parseFrom (some '*') plain (c :: rest)
  | '*' :: rest => parseFrom (some '*') (s.push .run) rest
  | '?' :: rest => parseFrom (some '?') (s.push .one) rest
  | '\\' :: c :: rest => parseFrom (some c) (s.pushChar c) rest
  | c :: rest =>
    if c = '\\' then none
    else if c = '\x7b' then parseFrom (some c) s.openChoice rest
    else if c = '\x7d' then (s.closeChoice?).bind fun s => parseFrom (some c) s rest
    else if c = ',' then parseFrom (some c) s.comma rest
    else if c = '[' && !s.literalBrackets then
      match h : readWholeSet rest with
      | (_, .unclosed) =>
        parseFrom (some '[') { s.pushChar '[' with literalBrackets := true } rest
      | (_, .invalid) => none
      | (negated, .closed ranges after) =>
        have := length_readWholeSet h
        parseFrom (some ']') (s.push (.set negated (ranges.flatMap byteRanges))) after
    else parseFrom (some c) (s.pushChar c) rest
termination_by text.length

/-- The pattern in a text. One that is `**` only takes everything. -/
def parse? (text : List Char) : Option Pattern := do
  let s ← parseFrom none {} text
  if !s.groups.isEmpty then none
  else if s.current.alternatives = [[.leading]] then some [[.leading, .run]]
  else some (s.current.alternatives.map List.reverse)

/-! ## Matching -/

def slash : UInt8 := 47

def anyEnd (accepts : List UInt8 → Bool) : List UInt8 → Bool
  | [] => accepts []
  | b :: rest => accepts (b :: rest) || anyEnd accepts rest

def anyComponentEnd (accepts : List UInt8 → Bool) : List UInt8 → Bool
  | [] => false
  | b :: rest => (b = slash && accepts rest) || anyComponentEnd accepts rest

/-- Whether some end of the text that starts before the first slash ends is accepted. -/
def anyNearEnd (accepts : List UInt8 → Bool) : List UInt8 → Bool
  | [] => accepts []
  | b :: rest => accepts (b :: rest) || (b ≠ slash && anyNearEnd accepts rest)

def inRanges (ranges : List (UInt8 × UInt8)) (b : UInt8) : Bool :=
  ranges.any fun (low, high) => low ≤ b && b ≤ high

def matchPieces : List Piece → List UInt8 → Bool
  | [], text => text.isEmpty
  | .run :: pieces, text => anyNearEnd (matchPieces pieces) text
  | .leading :: pieces, text =>
    matchPieces pieces text || anyComponentEnd (matchPieces pieces) text
  | _ :: _, [] => false
  | .byte b :: pieces, c :: text => b = c && matchPieces pieces text
  | .one :: pieces, c :: text => c ≠ slash && matchPieces pieces text
  | .set negated ranges :: pieces, c :: text =>
    (inRanges ranges c != negated) && matchPieces pieces text
  | .inner :: pieces, c :: text =>
    c = slash && (matchPieces pieces text || anyComponentEnd (matchPieces pieces) text)
  | .trailing :: pieces, c :: text => c = slash && anyEnd (matchPieces pieces) text

def Pattern.accepts (p : Pattern) (path : List UInt8) : Bool := p.any (matchPieces · path)

end LayoutLint.Ignore
