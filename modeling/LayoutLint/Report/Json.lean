import LayoutLint.Json
import LayoutLint.Report

/-! # Reports as JSON values

Writing a report and reading it back. A structure may be read from an object, in which unknown
fields mean nothing, or from an array of its fields in order.
-/

namespace LayoutLint

namespace Json

/-! ## Reading -/

def toString? : Json → Option String
  | str s => some s
  | _ => none

/-- A number from zero up to the last machine word. -/
def toWord? : Json → Option Nat
  | int n => if 0 ≤ n && n < (Word.count : Int) then some n.toNat else none
  | _ => none

def toList? : Json → Option (List Json)
  | arr items => some items
  | _ => none

/-- A name, or an object with that name for its one field and null in it. -/
def toTag? : Json → Option String
  | str s => some s
  | obj [(name, null)] => some name
  | _ => none

/-- The fields of a structure with the given names: `none` inside for a missing one. An array
may leave out fields at its end and holds no more than there are names. -/
def toFields? (names : List String) : Json → Option (List (Option Json))
  | obj fields => some (names.map fun name => fields.lookup name)
  | arr items =>
    if items.length ≤ names.length then
      some (items.map some ++ List.replicate (names.length - items.length) none)
    else none
  | _ => none

end Json

open Json

namespace Location

def toJson (l : Location) : Json :=
  .obj [("file", .str l.file), ("line", .ofNat l.line), ("column", .ofNat l.column),
    ("offset", .ofNat l.offset), ("length", .ofNat l.length)]

def ofJson? (j : Json) : Option Location := do
  match ← j.toFields? ["file", "line", "column", "offset", "length"] with
  | [file, line, column, offset, length] =>
    return ⟨← (← file).toString?, ← (← line).toWord?, ← (← column).toWord?,
      ← (← offset).toWord?, ← (← length).toWord?⟩
  | _ => none

end Location

namespace Violation

def suggestionToJson (help : String) : Json := .obj [("message", .str help)]

def toJson (v : Violation) : Json :=
  .obj ([("code", .str v.code), ("rule", .str v.rule), ("category", .str v.category.name),
    ("severity", .str v.severity.name), ("location", v.location.toJson),
    ("message", .str v.message)] ++
    (v.suggestion.map fun help => ("suggestion", suggestionToJson help)).toList)

/-- A suggestion that is missing or null is none. -/
def suggestionOfJson? : Option Json → Option (Option String)
  | none => some none
  | some .null => some none
  | some j => do
    match ← j.toFields? ["message"] with
    | [message] => return some (← (← message).toString?)
    | _ => none

def ofJson? (j : Json) : Option Violation := do
  match ← j.toFields? ["code", "rule", "category", "severity", "location", "message",
      "suggestion"] with
  | [code, rule, category, severity, location, message, suggestion] =>
    return {
      code := ← (← code).toString?
      rule := ← (← rule).toString?
      category := ← Category.ofName? (← (← category).toTag?)
      severity := ← Severity.ofName? (← (← severity).toTag?)
      location := ← Location.ofJson? (← location)
      message := ← (← message).toString?
      suggestion := ← suggestionOfJson? suggestion }
  | _ => none

end Violation

namespace Failure

def toJson (f : Failure) : Json := .obj [("path", .str f.path), ("message", .str f.message)]

def ofJson? (j : Json) : Option Failure := do
  match ← j.toFields? ["path", "message"] with
  | [path, message] => return ⟨← (← path).toString?, ← (← message).toString?⟩
  | _ => none

end Failure

namespace Report

def toJson (r : Report) : Json :=
  .obj [("violations", .arr (r.violations.map Violation.toJson)),
    ("files_checked", .ofNat r.filesChecked),
    ("failures", .arr (r.failures.map Failure.toJson))]

/-- A missing list of failures is empty. -/
def failuresOfJson? : Option Json → Option (List Failure)
  | none => some []
  | some j => do (← j.toList?).mapM Failure.ofJson?

def ofJson? (j : Json) : Option Report := do
  match ← j.toFields? ["violations", "files_checked", "failures"] with
  | [violations, filesChecked, failures] =>
    return {
      violations := ← (← (← violations).toList?).mapM Violation.ofJson?
      filesChecked := ← (← filesChecked).toWord?
      failures := ← failuresOfJson? failures }
  | _ => none

end Report

end LayoutLint
