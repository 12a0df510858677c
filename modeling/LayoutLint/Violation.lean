import LayoutLint.Span
import LayoutLint.Text.Lines

/-! # Violations

What a rule reports about a place in a file, and its texts.
-/

namespace LayoutLint

inductive Severity where
  | info
  | warning
  | error
  deriving DecidableEq, Repr

namespace Severity

def name : Severity → String
  | info => "info"
  | warning => "warning"
  | error => "error"

def all : List Severity := [info, warning, error]

def ofName? (s : String) : Option Severity := all.find? (·.name == s)

end Severity

/-- The convention that a rule belongs to. -/
inductive Category where
  | lineBreaks
  | separator
  deriving DecidableEq, Repr

namespace Category

def name : Category → String
  | lineBreaks => "line_breaks"
  | separator => "separator"

def all : List Category := [lineBreaks, separator]

def ofName? (s : String) : Option Category := all.find? (·.name == s)

end Category

/-- A place in a file; lines and columns count from one, columns in bytes. -/
structure Location where
  file : String
  line : Nat
  column : Nat
  offset : Nat
  /-- The length of the place in bytes, zero for a point. -/
  length : Nat
  deriving DecidableEq, Repr

/-- The location of a span of a text. -/
def SourceText.location (t : SourceText) (file : String) (s : Span) : Location where
  file := file
  line := (t.position s.start).line + 1
  column := (t.position s.start).column + 1
  offset := s.start
  length := s.length

structure Violation where
  code : String
  rule : String
  category : Category
  severity : Severity
  location : Location
  message : String
  /-- How to mend it. -/
  suggestion : Option String := none
  deriving DecidableEq, Repr

namespace Violation

def place (v : Violation) : String :=
  s!"{v.location.file}:{v.location.line}:{v.location.column}"

def format (v : Violation) : String :=
  s!"{v.code} {v.rule} at {v.place}\n" ++
  s!"  {v.severity.name} ({v.category.name}): {v.message}\n" ++
  match v.suggestion with
  | some help => s!"  = help: {help}\n"
  | none => ""

def display (v : Violation) : String :=
  s!"{v.place}: {v.severity.name} [{v.code}] {v.category.name}: {v.message}"

def headline (v : Violation) : String := s!"[{v.code}] {v.message}"

/-- The note at the place in a report that shows the source. -/
def note (v : Violation) : String := s!"{v.rule} ({v.category.name})"

end Violation

end LayoutLint
