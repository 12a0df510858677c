import LayoutLint.Finding
import LayoutLint.Outline
import LayoutLint.Text.Lines

/-! # Closing braces

A block ends right at its closing brace, and an empty line follows unless the code goes on.
-/

namespace LayoutLint.ClosingBrace

def blankBefore : String := "Line break before closing \x7d is not allowed."

def missingAfter : String := "Line break after closing \x7d is required."

def multipleCloses : String := "Multiple closing \x7d brackets on the same line are not allowed."

def blankBeforeAt (s : Span) : Finding :=
  ⟨s, blankBefore, some "Remove the empty line before `\x7d`"⟩

def missingAfterAt (s : Span) : Finding :=
  ⟨s, missingAfter, some "Insert an empty line after `\x7d`"⟩

def multipleClosesAt (s : Span) : Finding :=
  ⟨s, multipleCloses, some "Put each `\x7d` on its own line"⟩

/-! ## Code after a brace -/

/-- Where `pattern` first stands in the text, in characters. -/
def indexOf? (pattern : List Char) : List Char → Option Nat
  | [] => if pattern.isEmpty then some 0 else none
  | c :: cs =>
    if pattern.isPrefixOf (c :: cs) then some 0 else (indexOf? pattern cs).map (· + 1)

theorem indexOf?_cons_nil (p : Char) (ps : List Char) : indexOf? (p :: ps) [] = none := rfl

/-- The text without block comments and without what follows a line comment. -/
def stripComments (cs : List Char) : List Char :=
  let line? := indexOf? ['/', '/'] cs
  match _h : indexOf? ['/', '*'] cs with
  | none => cs.take (line?.getD cs.length)
  | some block =>
    if line?.all (block < ·) then
      cs.take block ++
        match indexOf? ['*', '/'] (cs.drop (block + 2)) with
        | none => []
        | some stop => stripComments (cs.drop (block + 2 + stop + 2))
    else cs.take (line?.getD cs.length)
termination_by cs.length
decreasing_by
  cases cs with
  | nil => simp [indexOf?_cons_nil] at _h
  | cons c cs => simp only [List.length_drop, List.length_cons]; omega

/-- The code goes on with the expression or opens another block. -/
def goesOn (code : List Char) : Bool :=
  (Text.trimEnd code).getLast?.any [',', ')', '}', '{'].contains

def continues (tail : List Char) : Bool := goesOn (stripComments tail)

/-! ## The check -/

variable (t : SourceText)

def braceSpan (offset : Nat) : Span := ⟨offset, offset + 1⟩

/-- The rest of the line after the brace at `offset`. -/
def tailAfter (offset : Nat) : List Char :=
  ((t.line? (t.lineAt offset)).bind
    (Text.dropBytes ((t.position offset).column + 1))).getD []

/-- The block spans three lines or more and a blank line stands before its closing brace. -/
def hasBlankBefore (b : Block) : Bool :=
  t.lineAt b.lbrace + 2 ≤ t.lineAt b.rbrace && t.isBlankLine (t.lineAt b.rbrace - 1)

/-- The line may follow a closing brace directly. -/
def mayFollow (line : List Char) : Bool :=
  line.isEmpty || "defer".toList.isPrefixOf line || ['}'].isPrefixOf line

/-- Code follows on the next line. -/
def lacksBlankAfter (b : Block) : Bool :=
  match t.trimmedLine? (t.lineAt b.rbrace + 1) with
  | none => false
  | some next => !mayFollow next && !continues (tailAfter t b.rbrace)

def blockFindings (b : Block) : List Finding :=
  (if hasBlankBefore t b then [blankBeforeAt (braceSpan b.rbrace)] else []) ++
  (if lacksBlankAfter t b then [missingAfterAt (braceSpan b.rbrace)] else [])

/-- The closing braces on a line, in the order of the blocks. -/
def closesOn (closes : List (Nat × Nat)) (line : Nat) : List Nat :=
  (closes.filter (·.1 = line)).map (·.2)

/-- One finding for each line on which several blocks close, at the first brace of them. -/
def multipleFindings (blocks : List Block) : List Finding :=
  let closes := blocks.map fun b => (t.lineAt b.rbrace, b.rbrace)
  (List.range t.lineCount).filterMap fun line =>
    match closesOn closes line with
    | first :: second :: rest =>
      some (multipleClosesAt (braceSpan ((second :: rest).foldl min first)))
    | _ => none

def findings (o : Outline) : List Finding :=
  o.blocks.flatMap (blockFindings t) ++ multipleFindings t o.blocks

end LayoutLint.ClosingBrace
