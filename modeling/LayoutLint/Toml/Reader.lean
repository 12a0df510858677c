/-! # Readers

A reader takes something from the front of a text and leaves the rest.
-/

namespace LayoutLint.Toml

abbrev Reader := StateT (List Char) Option

namespace Reader

def char (c : Char) : Reader Unit
  | d :: rest => if d = c then some ((), rest) else none
  | [] => none

def oneOf (accepts : Char → Bool) : Reader Char
  | c :: rest => if accepts c then some (c, rest) else none
  | [] => none

def word : List Char → Reader Unit
  | [] => pure ()
  | c :: cs => do char c; word cs

/-- The longest run of accepted characters, which may be empty. -/
def run (accepts : Char → Bool) : Reader (List Char) :=
  fun text => some (text.takeWhile accepts, text.dropWhile accepts)

def optional (r : Reader Unit) : Reader Unit := r <|> pure ()

/-- The characters that a reader takes. -/
def taken (r : Reader α) : Reader (List Char) := fun text => do
  let (_, rest) ← r text
  return (text.take (text.length - rest.length), rest)

def atEnd : Reader Unit
  | [] => some ((), [])
  | _ => none

/-! ## Blanks, line ends and comments -/

def isBlank (c : Char) : Bool := c = ' ' || c = '\t'

/-- The characters that may stand in a comment: all but control characters, tabs apart. -/
def isPrintable (c : Char) : Bool := c = '\t' || (0x20 ≤ c.toNat && c.toNat ≠ 0x7f)

def blanks : Reader Unit := do let _ ← run isBlank

def newline : Reader Unit
  | '\n' :: rest => some ((), rest)
  | '\r' :: '\n' :: rest => some ((), rest)
  | _ => none

def comment : Reader Unit := do
  char '#'
  let _ ← run isPrintable

/-- Blanks, perhaps a comment, and the end of the line or of the text. -/
def lineEnd : Reader Unit := do
  blanks
  optional comment
  newline <|> atEnd

/-- The text after blanks, line ends and whole comments. -/
def skipSpace (inComment : Bool) : List Char → List Char
  | '\n' :: rest => skipSpace false rest
  | '\r' :: '\n' :: rest => skipSpace false rest
  | c :: rest =>
    if inComment then
      if isPrintable c then skipSpace true rest else c :: rest
    else if isBlank c then skipSpace false rest
    else if c = '#' then skipSpace true rest
    else c :: rest
  | [] => []

def space : Reader Unit := fun text => some ((), skipSpace false text)

end Reader

end LayoutLint.Toml
