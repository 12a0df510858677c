import LayoutLint.Finding
import LayoutLint.Outline
import LayoutLint.Text.Lines

/-! # The gap after a signature

When the parameters of a function take several lines, the first thing in its body starts two
lines below the opening brace.
-/

namespace LayoutLint.SignatureGap

def gapRequired : String := "Line break after multiline function signature is required"

def gapTooLong (blanks : Nat) : String :=
  s!"Too many line breaks after the multiline function signature: {blanks}"

variable (t : SourceText)

/-- The span is not empty and its first and last byte stand on different lines. -/
def isMultiline (s : Span) : Bool :=
  !s.isEmpty && t.lineAt s.start != t.lineAt (s.stop - 1)

/-- The offset of the first statement, or of the closing brace if there is none. -/
def firstOffset (b : FuncBody) : Nat := b.firstStmt.getD b.rbrace

/-- The line of the first comment, in the order of the outline, that starts strictly between
the lines `above` and `below`; else `below`. -/
def firstLine (comments : List Comment) (above below : Nat) : Nat :=
  ((comments.map fun c => t.lineAt c.span.start).find? fun l => above < l && l < below).getD below

/-- How many lines the first thing in the body is below the opening brace. -/
def gap (comments : List Comment) (b : FuncBody) : Nat :=
  let above := t.lineAt b.lbrace
  firstLine t comments above (t.lineAt (firstOffset b)) - above

def gapAt (b : FuncBody) (message : String) : Finding where
  span := ⟨b.lbrace, firstOffset b⟩
  message
  suggestion := some "Leave exactly one empty line between `\x7b` and the body"

def functionFinding? (comments : List Comment) (f : FuncDecl) : Option Finding :=
  match f.body with
  | none => none
  | some body =>
    let gap := gap t comments body
    if !isMultiline t f.params || gap = 2 then none
    else some (gapAt body (if gap < 2 then gapRequired else gapTooLong (gap - 1)))

def findings (o : Outline) : List Finding :=
  o.functions.filterMap (functionFinding? t o.comments)

end LayoutLint.SignatureGap
