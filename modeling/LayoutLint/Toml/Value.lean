/-! # TOML values

Values of a configuration document. Fractional numbers and dates are kept as their text.
-/

namespace LayoutLint.Toml

inductive Value where
  | string (value : String)
  | integer (value : Int)
  | float (text : String)
  | boolean (value : Bool)
  | datetime (text : String)
  | array (items : List Value)
  | table (entries : List (String × Value))
  deriving Repr, Inhabited

namespace Value

def toString? : Value → Option String
  | string s => some s
  | _ => none

def toInt? : Value → Option Int
  | integer n => some n
  | _ => none

def toNat? : Value → Option Nat
  | integer (.ofNat n) => some n
  | _ => none

def toBool? : Value → Option Bool
  | boolean b => some b
  | _ => none

def toList? : Value → Option (List Value)
  | array items => some items
  | _ => none

def toEntries? : Value → Option (List (String × Value))
  | table entries => some entries
  | _ => none

/-- A name, or a table with that name for its one key and nothing below it. -/
def toTag? : Value → Option String
  | string s => some s
  | table [(name, array [])] => some name
  | table [(name, table [])] => some name
  | _ => none

/-- The entries of a structure with the given keys. An array gives them by position. -/
def toFields? (keys : List String) : Value → Option (List (String × Value))
  | table entries => some entries
  | array items => some (keys.zip items)
  | _ => none

end Value

end LayoutLint.Toml
