import LayoutLint.Text.Bytes
import LayoutLint.Text.Identifier

/-! # Lexemes

A Go text is cut into lexemes from left to right, each the longest that starts there. Nothing
is dropped: blanks, line feeds and comments are lexemes of their own, and a character that
starts none is an unknown lexeme.
-/

namespace LayoutLint.Source

inductive LexemeKind where
  | blank
  | newline
  | comment
  | word
  | keyword
  /-- A number or a rune. -/
  | literal
  | string
  | operator
  | unknown
  deriving DecidableEq, Repr

structure Lexeme where
  kind : LexemeKind
  chars : List Char
  /-- The byte offset of the first character. -/
  start : Nat
  deriving DecidableEq, Repr

def keywords : List String :=
  ["break", "case", "chan", "const", "continue", "default", "defer", "else", "fallthrough",
   "for", "func", "go", "goto", "if", "import", "interface", "map", "package", "range",
   "return", "select", "struct", "switch", "type", "var"]

/-- Operators and punctuation, longer ones before their beginnings. A null character ends a
statement like a semicolon. -/
def operators : List String :=
  ["&^=", "<<=", ">>=", "...", "<<", ">>", "&^", "+=", "-=", "*=", "/=", "%=", "&=", "|=", "^=",
   "&&", "||", "<-", "++", "--", "==", "!=", "<=", ">=", ":=", "+", "-", "*", "/", "%", "&", "|",
   "^", "<", ">", "=", "!", "(", ")", "[", "]", "\x7b", "\x7d", ",", ";", ".", ":", "~", "\x00"]

/-- A blank that is not a line feed. -/
def isSpace (c : Char) : Bool := c == ' ' || c == '\t' || c == '\r' || c == '\x0b' || c == '\x0c'

def isHexDigit (c : Char) : Bool :=
  c.isDigit || ('a' ≤ c && c ≤ 'f') || ('A' ≤ c && c ≤ 'F')

def isOctalDigit (c : Char) : Bool := '0' ≤ c && c ≤ '7'

def isBinaryDigit (c : Char) : Bool := c == '0' || c == '1'

/-! ## Lengths

Each function counts the characters at the head of its argument that belong to the lexeme.
-/

/-- Digits, with single underscores between two of them. -/
def digitRun (p : Char → Bool) : List Char → Nat
  | [] => 0
  | [d] => if p d then 1 else 0
  | d :: e :: rest =>
    if !p d then 0
    else if e == '_' then
      match digitRun p rest with
      | 0 => 1
      | n + 1 => n + 3
    else digitRun p (e :: rest) + 1

/-- Digits after an optional underscore. -/
def digitTail (p : Char → Bool) (cs : List Char) : Nat :=
  match cs with
  | '_' :: rest => if digitRun p rest = 0 then 0 else digitRun p rest + 1
  | _ => digitRun p cs

/-- An exponent with one of the given marks. -/
def exponentLength (marks : List Char) : List Char → Nat
  | [] => 0
  | m :: rest =>
    if !marks.contains m then 0
    else
      let sign := match rest with
        | '+' :: _ => 1
        | '-' :: _ => 1
        | _ => 0
      let digits := digitRun Char.isDigit (rest.drop sign)
      if digits = 0 then 0 else 1 + sign + digits

def intLength (cs : List Char) : Nat :=
  match cs with
  | '0' :: rest =>
    let based (p : Char → Bool) (tail : List Char) (before : Nat) : Nat :=
      if digitTail p tail = 0 then 1 else before + digitTail p tail
    match rest with
    | 'x' :: tail | 'X' :: tail => based isHexDigit tail 2
    | 'b' :: tail | 'B' :: tail => based isBinaryDigit tail 2
    | 'o' :: tail | 'O' :: tail => based isOctalDigit tail 2
    | _ => based isOctalDigit rest 1
  | _ => digitRun Char.isDigit cs

/-- A float with a decimal mantissa. -/
def decimalFloatLength (cs : List Char) : Nat :=
  let whole := digitRun Char.isDigit cs
  match cs.drop whole with
  | '.' :: rest =>
    let fraction := digitRun Char.isDigit rest
    if whole = 0 && fraction = 0 then 0
    else whole + 1 + fraction + exponentLength ['e', 'E'] (rest.drop fraction)
  | rest =>
    let exponent := exponentLength ['e', 'E'] rest
    if whole = 0 || exponent = 0 then 0 else whole + exponent

/-- A float with a hexadecimal mantissa, which needs an exponent. -/
def hexFloatLength (cs : List Char) : Nat :=
  match cs with
  | '0' :: x :: rest =>
    if x != 'x' && x != 'X' then 0
    else
      let whole := digitTail isHexDigit rest
      let mantissa := match rest.drop whole with
        | '.' :: fraction => whole + 1 + digitRun isHexDigit fraction
        | _ => whole
      let exponent := exponentLength ['p', 'P'] (rest.drop mantissa)
      if mantissa = 0 || rest.take mantissa == ['.'] || exponent = 0 then 0
      else 2 + mantissa + exponent
  | _ => 0

/-- The longest of an integer, a float and an imaginary number. -/
def numberLength (cs : List Char) : Nat :=
  let reals := [digitRun Char.isDigit cs, intLength cs, decimalFloatLength cs, hexFloatLength cs]
  let imaginary := reals.map fun n => if 0 < n && (cs.drop n).head? == some 'i' then n + 1 else 0
  ((reals.drop 1) ++ imaginary).foldl max 0

/-- A comment from its second character on, up to and including the first `*/`. -/
def blockCommentLength : List Char → Option Nat
  | [] => none
  | '*' :: '/' :: _ => some 2
  | _ :: rest => (blockCommentLength rest).map (· + 1)

def rawStringLength : List Char → Option Nat
  | [] => none
  | '\x60' :: _ => some 1
  | _ :: rest => (rawStringLength rest).map (· + 1)

/-- An escape after its backslash: two, four or eight hexadecimal digits where one of `x`, `u`
and `U` asks for them, else any character. -/
def escapeLength : List Char → Option Nat
  | [] => none
  | c :: rest =>
    let hex (n : Nat) : Option Nat :=
      if (rest.take n).length = n && (rest.take n).all isHexDigit then some (n + 1) else none
    match c with
    | 'x' => hex 2
    | 'u' => hex 4
    | 'U' => hex 8
    | _ => some 1

/-- An interpreted string after its opening quote; the first argument counts characters of an
escape that are still to be skipped. -/
def stringLength : Nat → List Char → Option Nat
  | _, [] => none
  | skip + 1, _ :: rest => (stringLength skip rest).map (· + 1)
  | 0, '"' :: _ => some 1
  | 0, '\n' :: _ => none
  | 0, '\\' :: rest => do
    let escape ← escapeLength rest
    (stringLength escape rest).map (· + 1)
  | 0, _ :: rest => (stringLength 0 rest).map (· + 1)

def runeLength : List Char → Option Nat
  | '\\' :: c :: rest =>
    let digits (p : Char → Bool) (n : Nat) (ds : List Char) : Option Nat :=
      if (ds.take n).length = n && (ds.take n).all p && (ds.drop n).head? == some '\x27' then
        some (n + 1)
      else none
    match c with
    | 'x' => (digits isHexDigit 2 rest).map (· + 2)
    | 'u' => (digits isHexDigit 4 rest).map (· + 2)
    | 'U' => (digits isHexDigit 8 rest).map (· + 2)
    | _ =>
      if isOctalDigit c then (digits isOctalDigit 3 (c :: rest)).map (· + 1)
      else if "abfnrtv\\'\"".toList.contains c && rest.head? == some '\x27' then some 3
      else none
  | c :: '\x27' :: _ => if c = '\x27' then none else some 2
  | _ => none

/-- The first operator at the head of the text. -/
def operatorAt? (cs : List Char) : Option String :=
  operators.find? fun op => op.toList.isPrefixOf cs

/-- The kind of the lexeme that starts with `c`, and how many of the characters that follow
belong to it. -/
def lexemeAt (c : Char) (cs : List Char) : LexemeKind × Nat :=
  let operator : LexemeKind × Nat := match operatorAt? (c :: cs) with
    | some op => (.operator, op.toList.length - 1)
    | none => (.unknown, 0)
  let number : LexemeKind × Nat := (.literal, numberLength (c :: cs) - 1)
  let closed (kind : LexemeKind) (length : Option Nat) : LexemeKind × Nat :=
    match length with
    | some n => (kind, n)
    | none => (.unknown, 0)
  if c = '\n' then (.newline, 0)
  else if isSpace c then (.blank, (cs.takeWhile isSpace).length)
  else if c = '"' then closed .string (stringLength 0 cs)
  else if c = '\x60' then closed .string (rawStringLength cs)
  else if c = '\x27' then closed .literal (runeLength cs)
  else if c = '/' then
    match cs with
    | '/' :: _ => (.comment, (cs.takeWhile (· ≠ '\n')).length)
    | '*' :: rest => match blockCommentLength rest with
      | some n => (.comment, n + 1)
      | none => operator
    | _ => operator
  else if c.isDigit then number
  else if c = '.' && (cs.head?.any Char.isDigit) then number
  else if Text.isIdentStart c then
    let tail := cs.takeWhile Text.isIdentContinue
    (if keywords.contains (String.ofList (c :: tail)) then .keyword else .word, tail.length)
  else operator

/-- The lexemes of a text that starts at byte offset `start`. -/
def lexemes (start : Nat) : List Char → List Lexeme
  | [] => []
  | c :: cs =>
    let (kind, n) := lexemeAt c cs
    let chars := c :: cs.take n
    ⟨kind, chars, start⟩ :: lexemes (start + Text.byteLength chars) (cs.drop n)
termination_by cs => cs.length
decreasing_by simp only [List.length_cons, List.length_drop]; omega

end LayoutLint.Source
