import LayoutLint.Toml.Value

/-! # Tables under construction

A document is a sequence of headers and assignments. A table remembers how it came about,
because that decides whether a later line may add to it.
-/

namespace LayoutLint.Toml

inductive Origin where
  /-- The table has a header of its own. -/
  | header
  /-- The table is named only inside the headers of other tables. -/
  | implied
  /-- The table comes from a dotted key. -/
  | dotted
  deriving DecidableEq, Repr

inductive Node where
  | value (value : Value)
  | table (origin : Origin) (entries : List (String × Node))
  /-- The elements of an array of tables, the last one first. -/
  | tables (elements : List (List (String × Node)))

abbrev Entries := List (String × Node)

structure Table where
  origin : Origin := .header
  entries : Entries := []

/-- A line of a document. -/
inductive Line where
  | assign (path : List String) (key : String) (value : Value)
  | header (path : List String) (key : String)
  | element (path : List String) (key : String)

namespace Entries

/-- The entries with another node at a key, which is put at the end if it is new. -/
def set (key : String) (node : Node) : Entries → Entries
  | [] => [(key, node)]
  | (k, n) :: rest => if k = key then (key, node) :: rest else (k, n) :: set key node rest

end Entries

namespace Table

def set (t : Table) (key : String) (node : Node) : Table :=
  { t with entries := Entries.set key node t.entries }

/-- Change the table at a path. Tables missing on the way are made with the given origin.
A dotted key does not enter a table that has a header. -/
def modify (origin : Origin) (change : Table → Option Table) : List String → Table → Option Table
  | [], t => change t
  | key :: path, t =>
    match t.entries.lookup key with
    | none => do
      let inner ← modify origin change path { origin }
      return t.set key (.table inner.origin inner.entries)
    | some (.value _) => none
    | some (.tables []) => none
    | some (.tables (last :: before)) => do
      let inner ← modify origin change path { entries := last }
      return t.set key (.tables (inner.entries :: before))
    | some (.table found entries) =>
      if origin = .dotted ∧ found = .header then none
      else do
        let inner ← modify origin change path { origin := found, entries }
        return t.set key (.table inner.origin inner.entries)

/-- Put a value at a new key. A dotted key adds to tables from dotted keys only. -/
def assign (path : List String) (key : String) (value : Value) : Table → Option Table :=
  modify .dotted (fun t =>
    if decide (t.origin = .dotted) = path.isEmpty then none
    else if (t.entries.lookup key).isSome then none
    else some (t.set key (.value value))) path

/-- Give a table its header. -/
def declare (path : List String) (key : String) : Table → Option Table :=
  modify .implied (fun t =>
    match t.entries.lookup key with
    | none => some (t.set key (.table .header []))
    | some (.table .implied entries) => some (t.set key (.table .header entries))
    | some _ => none) path

/-- Append an empty table to an array of tables. -/
def extend (path : List String) (key : String) : Table → Option Table :=
  modify .implied (fun t =>
    match t.entries.lookup key with
    | none => some (t.set key (.tables [[]]))
    | some (.tables elements) => some (t.set key (.tables ([] :: elements)))
    | some _ => none) path

/-- The table that the lines make; each assignment goes below the last header. -/
def ofLines (place : List String) (t : Table) : List Line → Option Table
  | [] => some t
  | .assign path key value :: lines => do
    ofLines place (← modify .implied (assign path key value) place t) lines
  | .header path key :: lines => do
    ofLines (path ++ [key]) (← t.declare path key) lines
  | .element path key :: lines => do
    ofLines (path ++ [key]) (← t.extend path key) lines

end Table

mutual

def Node.toValue : Node → Value
  | .value v => v
  | .table _ entries => .table (entriesToValues entries)
  | .tables elements => .array (elementsToValues elements).reverse

def entriesToValues : List (String × Node) → List (String × Value)
  | [] => []
  | (key, node) :: rest => (key, Node.toValue node) :: entriesToValues rest

def elementsToValues : List (List (String × Node)) → List Value
  | [] => []
  | entries :: rest => .table (entriesToValues entries) :: elementsToValues rest

end

end LayoutLint.Toml
