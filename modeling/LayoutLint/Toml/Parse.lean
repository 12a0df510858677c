import LayoutLint.Toml.Scalar
import LayoutLint.Toml.Table

/-! # Reading a document

Keys, nested values, and the lines of a document.
-/

namespace LayoutLint.Toml

open Reader

/-! ## Keys -/

def isKeyChar (c : Char) : Bool := c.isAlphanum || c = '-' || c = '_'

def simpleKey : Reader String :=
  lineString <|> do
    let first ← oneOf isKeyChar
    return String.ofList (first :: (← run isKeyChar))

/-- The parts of a dotted key, at most `n` of them. -/
def keyParts : Nat → Reader (List String)
  | 0 => failure
  | n + 1 => do
    blanks
    let part ← simpleKey
    blanks
    (do char '.'; return part :: (← keyParts n)) <|> pure [part]

/-- The deepest nesting of values and the longest dotted key. -/
def maxDepth : Nat := 79

/-- A dotted key as a path and a last part. -/
def key : Reader (List String × String) := do
  let parts ← keyParts maxDepth
  return (parts.dropLast, parts.getLastD "")

/-! ## Values -/

/-- The items of an array after its opening bracket, at most `n` of them. -/
def arrayItems (item : Reader Value) : Nat → Reader (List Value)
  | 0 => failure
  | n + 1 => do
    space
    (do char ']'; return []) <|> do
      let v ← item
      space
      (do char ']'; return [v]) <|> (do char ','; return v :: (← arrayItems item n))

def array (item : Reader Value) : Reader Value := do
  char '['
  let text ← get
  return .array (← arrayItems item (text.length + 1))

def assignment (item : Reader Value) : Reader Line := do
  let (path, name) ← key
  char '='
  blanks
  return .assign path name (← item)

/-- The assignments of an inline table, at most `n` of them. -/
def inlineItems (item : Reader Value) : Nat → Reader (List Line)
  | 0 => failure
  | n + 1 => do
    let line ← assignment item
    blanks
    (do char '\x7d'; return [line]) <|> (do char ','; return line :: (← inlineItems item n))

def inlineTable (item : Reader Value) : Reader Value := do
  char '\x7b'
  blanks
  let lines ← (do char '\x7d'; return []) <|> do
    let text ← get
    inlineItems item (text.length + 1)
  match Table.ofLines [] {} lines with
  | some t => return .table (entriesToValues t.entries)
  | none => failure

/-- A value that holds at most so many levels of arrays and inline tables. -/
def value : Nat → Reader Value
  | 0 => scalar
  | depth + 1 => scalar <|> array (value depth) <|> inlineTable (value depth)

/-! ## Documents -/

/-- A header or an assignment; a line with neither holds nothing. -/
def line : Reader (List Line) := do
  blanks
  let found ←
    (do
      word ['[', '[']
      let (path, name) ← key
      word [']', ']']
      return [Line.element path name]) <|>
    (do
      char '['
      let (path, name) ← key
      char ']'
      return [Line.header path name]) <|>
    (do return [← assignment (value maxDepth)]) <|>
    pure []
  lineEnd
  return found

def lines : Nat → Reader (List Line)
  | 0 => failure
  | n + 1 => (do atEnd; return []) <|> do return (← line) ++ (← lines n)

def skipMark : List Char → List Char
  | '\ufeff' :: rest => rest
  | text => text

/-- The entries of a document, after a byte order mark if there is one. -/
def parse? (text : List Char) : Option (List (String × Value)) := do
  let body := skipMark text
  let (found, _) ← lines (body.length + 1) body
  let table ← Table.ofLines [] {} found
  return entriesToValues table.entries

end LayoutLint.Toml
