import LayoutLint.Text.Blank
import LayoutLint.Text.Bytes

/-! # Lines and positions

A text is cut into lines at each line feed and nowhere else, so a carriage return stays in its
line and a text that ends in a line feed has a last, empty line. Lines and columns count from
zero, columns in bytes.
-/

namespace LayoutLint

namespace Text

def splitLines : List Char → List (List Char)
  | [] => [[]]
  | c :: cs =>
    if c = '\n' then [] :: splitLines cs
    else match splitLines cs with
      | [] => [[c]]
      | l :: ls => (c :: l) :: ls

/-- The offsets just after each line feed, when the text starts at offset `o`. -/
def startsAfter (o : Nat) : List Char → List Nat
  | [] => []
  | c :: cs =>
    if c = '\n' then (o + 1) :: startsAfter (o + 1) cs
    else startsAfter (o + c.utf8Size) cs

def lineStarts (cs : List Char) : List Nat := 0 :: startsAfter 0 cs

theorem splitLines_ne_nil (cs : List Char) : splitLines cs ≠ [] := by
  cases cs with
  | nil => simp [splitLines]
  | cons c cs =>
    simp only [splitLines]
    split
    · simp
    · split <;> simp

end Text

/-- A zero-based line, and a column in bytes within it. -/
structure Position where
  line : Nat
  column : Nat
  deriving DecidableEq, Repr

/-- A text together with its tables of lines and line starts. -/
structure SourceText where
  chars : List Char
  /-- The length of the text in bytes. -/
  size : Nat := Text.byteLength chars
  lines : List (List Char) := Text.splitLines chars
  lineStarts : List Nat := Text.lineStarts chars
  size_eq : size = Text.byteLength chars := by rfl
  lines_eq : lines = Text.splitLines chars := by rfl
  lineStarts_eq : lineStarts = Text.lineStarts chars := by rfl

namespace SourceText

def ofString (s : String) : SourceText := { chars := s.toList }

variable (t : SourceText)

def lineCount : Nat := t.lines.length

def lastLine : Nat := t.lineCount - 1

def line? (i : Nat) : Option (List Char) := t.lines[i]?

def trimmedLine? (i : Nat) : Option (List Char) := (t.line? i).map Text.trim

def isBlankLine (i : Nat) : Bool := (t.trimmedLine? i).any List.isEmpty

/-- The number of blank lines in a row that end just above line `n`. -/
def blankLinesBefore : Nat → Nat
  | 0 => 0
  | n + 1 => if t.isBlankLine n then blankLinesBefore n + 1 else 0

/-- The number of blank lines in a row that start just below line `n`. -/
def blankLinesAfter (n : Nat) : Nat :=
  ((t.lines.drop (n + 1)).takeWhile fun l => (Text.trim l).isEmpty).length

def lineStart? (i : Nat) : Option Nat := t.lineStarts[i]?

/-- The last line that starts at or before offset `o`; an offset past the end counts as the end. -/
def lineAt (o : Nat) : Nat :=
  (t.lineStarts.takeWhile (· ≤ min o t.size)).length - 1

def position (o : Nat) : Position where
  line := t.lineAt o
  column := min o t.size - (t.lineStart? (t.lineAt o)).getD 0

/-- The text from byte `start` up to byte `stop`, empty if an end falls inside a character or
past the end. -/
def slice (start stop : Nat) : List Char := Text.slice t.chars start stop

theorem lineCount_pos : 0 < t.lineCount := by
  rw [lineCount, t.lines_eq, List.length_pos_iff]
  exact Text.splitLines_ne_nil _

end SourceText

end LayoutLint
