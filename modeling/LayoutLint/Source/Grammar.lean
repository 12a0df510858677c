import LayoutLint.Source.Tree

/-! # Grammars

A grammar is a value that says how tokens group into trees. Reading follows it from left to
right; of two alternatives the first that fits is taken. The trees read so far stand in a
scope, and `wrap` makes one node of all that stands there, so an expression can be read before
it is known what it is a part of.
-/

namespace LayoutLint.Source

/-- How line feeds and braces are understood. -/
inductive Mode where
  /-- A line feed ends what may end there. -/
  | line
  /-- Inside brackets: line feeds mean nothing. -/
  | bracket
  /-- Before the block of a statement: line feeds mean nothing, and a brace after a type name
  opens the block. -/
  | header
  deriving DecidableEq, Repr

/-- A grammar whose recursive phrases are named by `ρ`. -/
inductive Grammar (ρ : Type) where
  | empty
  | fail
  /-- The keyword, operator or punctuation mark with the given text. -/
  | mark (text : String)
  /-- A word that is none of the given texts. -/
  | word (kind : NodeKind) (except : List String)
  /-- A word that is one of the given texts. -/
  | wordAmong (kind : NodeKind) (texts : List String)
  /-- A literal token of the given kind. -/
  | literal (token : TokenKind) (kind : NodeKind)
  /-- Nothing, unless a line feed here ends what may end. -/
  | sameLine
  /-- Nothing, unless a brace here opens a block. -/
  | noBlock
  /-- A line feed, a semicolon, or the end of the text. -/
  | terminator
  | endOfText
  | seq (first second : Grammar ρ)
  | alt (first second : Grammar ρ)
  /-- As often as it fits. -/
  | many (body : Grammar ρ)
  /-- In a scope of its own. -/
  | scope (body : Grammar ρ)
  /-- One node of all that stands in the scope, comments at its beginning left outside. -/
  | wrap (kind : NodeKind) (field : Option Field := none)
  /-- The last tree read in the part `field` of its parent. -/
  | label (field : Field) (body : Grammar ρ)
  /-- Nothing, if the body fits here. -/
  | ahead (body : Grammar ρ)
  | inMode (mode : Mode) (body : Grammar ρ)
  | phrase (name : ρ)

namespace Grammar

variable {ρ : Type}

instance : Append (Grammar ρ) := ⟨seq⟩

def opt (g : Grammar ρ) : Grammar ρ := alt g empty

/-- The first of the alternatives that fits. -/
def choice (gs : List (Grammar ρ)) : Grammar ρ := gs.foldr alt fail

def marks (texts : List String) : Grammar ρ := choice (texts.map mark)

def node (kind : NodeKind) (g : Grammar ρ) : Grammar ρ := scope (g ++ wrap kind)

/-- One or more, with the separator between them. -/
def sepBy (g separator : Grammar ρ) : Grammar ρ := g ++ many (separator ++ g)

/-- Any number, each but the last followed by a terminator. -/
def lines (g : Grammar ρ) : Grammar ρ := opt (sepBy g terminator ++ opt terminator)

/-- Any number between commas, with an optional comma at the end. -/
def commaList (g : Grammar ρ) : Grammar ρ := opt (sepBy g (mark ",") ++ opt (mark ","))

/-! ## Reading

A scope lists its trees with the last one first.
-/

/-- The scope after a token, whose comments stand before it. -/
def push (leaf : Tree) (t : Token) (acc : List Tree) : List Tree :=
  leaf :: (t.comments.reverse.map Tree.comment ++ acc)

/-- The scope with all its trees in one node, but for the comments at its beginning. -/
def wrapAll (kind : NodeKind) (field : Option Field) (acc : List Tree) : List Tree :=
  let trees := acc.reverse
  .node field kind (trees.dropWhile Tree.isComment) :: (trees.takeWhile Tree.isComment).reverse

/-- The scope with its last tree in the part `field`. -/
def labelLast (field : Field) : List Tree → List Tree
  | [] => []
  | t :: ts => t.withField field :: ts

def isMark (text : String) (t : Token) : Bool :=
  (t.kind = .keyword || t.kind = .operator) && t.text == text

/-- Reads the next token as a leaf of the given kind if it passes the test. -/
def readToken (kind : NodeKind) (test : Token → Bool) (acc : List Tree) :
    List Token → Option (List Tree × List Token)
  | [] => none
  | t :: ts => if test t then some (push (.leaf none kind t) t acc, ts) else none

def readTerminator (acc : List Tree) : List Token → Option (List Tree × List Token)
  | [] => none
  | t :: ts =>
    if t.newline || t.kind = .endOfText then some (acc, t :: ts)
    else if isMark ";" t || isMark "\x00" t then some (push (.leaf none .mark t) t acc, ts)
    else none

def readEnd (acc : List Tree) : List Token → Option (List Tree × List Token)
  | [t] =>
    if t.kind = .endOfText then some (t.comments.reverse.map Tree.comment ++ acc, []) else none
  | _ => none

/-- No line feed stands before the next token, or it means nothing. -/
def onSameLine (mode : Mode) (ts : List Token) : Bool :=
  mode ≠ .line || ts.head?.any (!·.newline)

/-- Reads the tokens along the grammar: the scope and the tokens left, if it fits. The number
bounds the depth of the reading. -/
def read (body : ρ → Grammar ρ) :
    Nat → Grammar ρ → Mode → List Tree → List Token → Option (List Tree × List Token)
  | 0, _, _, _, _ => none
  | depth + 1, g, mode, acc, ts =>
    match g with
    | empty => some (acc, ts)
    | fail => none
    | mark text => readToken .mark (isMark text) acc ts
    | word kind except =>
      readToken kind (fun t => t.kind = .word && !except.contains t.text) acc ts
    | wordAmong kind texts =>
      readToken kind (fun t => t.kind = .word && texts.contains t.text) acc ts
    | literal token kind => readToken kind (·.kind = token) acc ts
    | sameLine => if onSameLine mode ts then some (acc, ts) else none
    | noBlock => if mode ≠ .header then some (acc, ts) else none
    | terminator => readTerminator acc ts
    | endOfText => readEnd acc ts
    | seq a b =>
      match read body depth a mode acc ts with
      | none => none
      | some (acc', ts') => read body depth b mode acc' ts'
    | alt a b =>
      match read body depth a mode acc ts with
      | some r => some r
      | none => read body depth b mode acc ts
    | many a =>
      match read body depth a mode acc ts with
      | none => some (acc, ts)
      | some (acc', ts') => read body depth (many a) mode acc' ts'
    | scope a =>
      match read body depth a mode [] ts with
      | none => none
      | some (inner, ts') => some (inner ++ acc, ts')
    | wrap kind field => some (wrapAll kind field acc, ts)
    | label field a =>
      match read body depth a mode [] ts with
      | none => none
      | some (inner, ts') => some (labelLast field inner ++ acc, ts')
    | ahead a =>
      match read body depth a mode [] ts with
      | none => none
      | some _ => some (acc, ts)
    | inMode mode' a => read body depth a mode' acc ts
    | phrase name => read body depth (body name) mode acc ts

end Grammar

end LayoutLint.Source
