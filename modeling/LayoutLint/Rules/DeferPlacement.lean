import LayoutLint.Finding
import LayoutLint.Outline
import LayoutLint.Text.Lines

/-! # Placement of `defer`

A `defer` follows the statement that it cleans up after. Only one that opens a function body
may have a blank line before it.
-/

namespace LayoutLint.DeferPlacement

def blankBefore : String := "Line break before 'defer' statement is not allowed."

def blankBeforeAt (s : Span) : Finding :=
  ⟨s, blankBefore, some "Remove the empty line so `defer` follows the statement it cleans up after"⟩

variable (t : SourceText)

/-- The lines on which function bodies open. -/
def bodyLines (o : Outline) : List Nat :=
  (o.blocks.filter (·.kind = .functionBody)).map fun b => t.lineAt b.lbrace

/-- A blank line stands before line `d`, and no body opens above that. -/
def isMisplaced (bodies : List Nat) (d : Nat) : Bool :=
  1 ≤ d && t.isBlankLine (d - 1) && !(2 ≤ d && bodies.contains (d - 2))

/-- The findings when function bodies open on the given lines. -/
def findingsWith (bodies : List Nat) (o : Outline) : List Finding :=
  (o.defers.filter fun s => isMisplaced t bodies (t.lineAt s.start)).map blankBeforeAt

def findings (o : Outline) : List Finding := findingsWith t (bodyLines t o) o

end LayoutLint.DeferPlacement
