/-! # JSON values

Values with integral numbers, and their text over several lines.
-/

namespace LayoutLint

inductive Json where
  | null
  | bool (value : Bool)
  | int (value : Int)
  /-- A number written with a fraction or an exponent. -/
  | real
  | str (value : String)
  | arr (items : List Json)
  /-- Fields in the order in which they are written. -/
  | obj (fields : List (String × Json))
  deriving Repr, Inhabited

namespace Json

def ofNat (n : Nat) : Json := int n

/-! ## Text -/

def hexDigit (n : Nat) : Char := "0123456789abcdef".toList.getD n '0'

/-- A character inside quotes: control characters, quotes and backslashes are escaped. -/
def escapeChar (c : Char) : List Char :=
  match c with
  | '"' => ['\\', '"']
  | '\\' => ['\\', '\\']
  | '\n' => ['\\', 'n']
  | '\r' => ['\\', 'r']
  | '\t' => ['\\', 't']
  | '\x08' => ['\\', 'b']
  | '\x0c' => ['\\', 'f']
  | c =>
    if c.toNat < 0x20 then
      ['\\', 'u', '0', '0', hexDigit (c.toNat / 16), hexDigit (c.toNat % 16)]
    else [c]

def quote (s : String) : String :=
  String.ofList ('"' :: (s.toList.flatMap escapeChar ++ ['"']))

def indent (n : Nat) : String := String.ofList (List.replicate (2 * n) ' ')

/-- Items between brackets, each on a line of its own. -/
def bracket (left right : String) (depth : Nat) (items : List String) : String :=
  if items.isEmpty then left ++ right
  else
    left ++ "\n" ++ ",\n".intercalate (items.map fun i => indent (depth + 1) ++ i) ++ "\n" ++
      indent depth ++ right

mutual

/-- The text at a depth of indentation: two spaces a level. -/
def prettyAt (depth : Nat) : Json → String
  | null => "null"
  | bool b => if b then "true" else "false"
  | int n => if 0 ≤ n then Nat.repr n.toNat else "-" ++ Nat.repr n.natAbs
  | real => "0.0"
  | str s => quote s
  | arr items => bracket "[" "]" depth (prettyItems (depth + 1) items)
  | obj fields => bracket "\x7b" "\x7d" depth (prettyFields (depth + 1) fields)

def prettyItems (depth : Nat) : List Json → List String
  | [] => []
  | j :: js => prettyAt depth j :: prettyItems depth js

def prettyFields (depth : Nat) : List (String × Json) → List String
  | [] => []
  | (k, j) :: fs => (quote k ++ ": " ++ prettyAt depth j) :: prettyFields depth fs

end

def pretty (j : Json) : String := prettyAt 0 j

end Json

end LayoutLint
