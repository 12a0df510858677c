import LayoutLint.Guarded.Basic
import LayoutLint.Path

/-! # Reports

All that an analysis found, and the files it could not read.
-/

namespace LayoutLint

structure Failure where
  path : String
  message : String
  deriving DecidableEq, Repr

structure Report where
  violations : List Violation := []
  filesChecked : Nat := 0
  failures : List Failure := []
  deriving DecidableEq, Repr

namespace Report

def count (r : Report) (s : Severity) : Nat := r.violations.countP (·.severity = s)

def hasErrors (r : Report) : Bool := r.violations.any (·.severity = .error)

def hasFailures (r : Report) : Bool := !r.failures.isEmpty

def ofCategory (r : Report) (c : Category) : List Violation :=
  r.violations.filter (·.category = c)

def push (r : Report) (v : Violation) : Report := { r with violations := r.violations ++ [v] }

def fail (r : Report) (f : Failure) : Report := { r with failures := r.failures ++ [f] }

def append (r s : Report) : Guarded.Run Report := do
  return {
    violations := r.violations ++ s.violations
    filesChecked := ← Guarded.add r.filesChecked s.filesChecked
    failures := r.failures ++ s.failures }

/-- By file, line and column; files compare as paths. -/
def comparePlaces (a b : Location) : Ordering :=
  (Path.compare a.file b.file).then
    ((Ord.compare a.line b.line).then (Ord.compare a.column b.column))

/-- The violations in the order of their places; those at one place keep their order. -/
def sort (r : Report) : Report :=
  { r with
    violations := r.violations.mergeSort fun v w => comparePlaces v.location w.location ≠ .gt }

end Report

end LayoutLint
