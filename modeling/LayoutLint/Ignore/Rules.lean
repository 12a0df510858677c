import LayoutLint.FileTree
import LayoutLint.Ignore.Pattern
import LayoutLint.Text.Blank

/-! # Ignore files

An ignore file has a rule a line. Of the rules that match a path the last one decides.
-/

namespace LayoutLint.Ignore

inductive Verdict where
  | ignored
  | kept
  deriving DecidableEq, Repr

structure Rule where
  pattern : Pattern
  verdict : Verdict
  onlyDirectories : Bool
  deriving DecidableEq, Repr

/-- The line without blanks at its end, unless a backslash keeps the last one. -/
def trimLine (line : List Char) : List Char :=
  if ['\\', ' '].isSuffixOf line then line else Text.trimEnd line

/-- A first `!` turns the verdict around. -/
def splitVerdict : List Char → Verdict × List Char
  | '!' :: rest => (.kept, rest)
  | line => (.ignored, line)

/-- A first slash ties the pattern to the directory of the file. -/
def splitAnchor : List Char → Bool × List Char
  | '/' :: rest => (true, rest)
  | line => (false, line)

/-- A last slash, with the backslash before it if there is one, asks for a directory. -/
def splitDirectory (line : List Char) : Bool × List Char :=
  match line.reverse with
  | '/' :: '\\' :: rest => (true, rest.reverse)
  | '/' :: rest => (true, rest.reverse)
  | _ => (false, line)

/-- The pattern of a line: one without a slash matches at any depth, and one that ends in `/**`
matches what is inside a directory only. -/
def widen (anchored : Bool) (line : List Char) : List Char :=
  let floating := !anchored && !line.contains '/' && line ≠ ['*', '*']
  let line := if floating then ['*', '*', '/'] ++ line else line
  if ['/', '*', '*'].isSuffixOf line then line ++ ['/', '*'] else line

/-- The rule of a line that is not empty; a malformed pattern gives none. -/
def ruleOf? (line : List Char) : Option Rule := do
  let (verdict, anchored, body) := match line with
    | '\\' :: '!' :: rest => (Verdict.ignored, false, '!' :: rest)
    | '\\' :: '#' :: rest => (Verdict.ignored, false, '#' :: rest)
    | line =>
      let (verdict, line) := splitVerdict line
      let (anchored, line) := splitAnchor line
      (verdict, anchored, line)
  let (onlyDirectories, body) := splitDirectory body
  return { pattern := ← parse? (widen anchored body), verdict, onlyDirectories }

/-- Comments and empty lines give no rule. -/
def ofLine? (line : List Char) : Option Rule :=
  if line.head? = some '#' then none
  else
    let line := trimLine line
    if line.isEmpty then none else ruleOf? line

/-! ## Lines -/

/-- The bytes between the line feeds. -/
def splitBytes : List UInt8 → List (List UInt8)
  | [] => [[]]
  | b :: rest =>
    if b = 10 then [] :: splitBytes rest
    else match splitBytes rest with
      | [] => [[b]]
      | line :: lines => (b :: line) :: lines

/-- The line without the carriage return that ends it together with the line feed. -/
def dropReturn (line : List UInt8) : List UInt8 :=
  if line.getLast? = some 13 then line.dropLast else line

def decode? (line : List UInt8) : Option (List Char) :=
  (FileTree.text? ⟨line.toArray⟩).map String.toList

/-- The lines of a file up to the first that is not text. -/
def linesOf (bytes : ByteArray) : List (List Char) :=
  let lines := splitBytes bytes.data.toList
  let lines := lines.dropLast.map dropReturn ++ lines.getLast?.toList
  (lines.map decode?).takeWhile Option.isSome |>.filterMap id

def rulesOf (bytes : ByteArray) : List Rule :=
  match linesOf bytes with
  | [] => []
  | first :: lines => (first.dropWhile (· = '\ufeff') :: lines).filterMap ofLine?

def Rule.applies (r : Rule) (path : List UInt8) (isDirectory : Bool) : Bool :=
  (isDirectory || !r.onlyDirectories) && r.pattern.accepts path

/-- What the rules say about a path, if they say anything. -/
def verdict? (rules : List Rule) (path : List UInt8) (isDirectory : Bool) : Option Verdict :=
  ((rules.filter (·.applies path isDirectory)).getLast?).map Rule.verdict

end LayoutLint.Ignore
