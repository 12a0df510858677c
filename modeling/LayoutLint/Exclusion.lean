import LayoutLint.Glob

/-! # Excluded paths

A pattern excludes the paths that it matches as a glob, and those that contain what is left of
it without its `**`.
-/

namespace LayoutLint

structure Exclusion where
  pattern : String
  glob : Glob
  deriving DecidableEq, Repr

namespace Exclusion

def parse (pattern : String) : Except Glob.Error Exclusion := do
  return ⟨pattern, ← Glob.parse pattern⟩

def dropStars : List Char → List Char
  | '*' :: '*' :: rest => dropStars rest
  | c :: rest => c :: dropStars rest
  | [] => []

/-- The text that is looked for inside a path. -/
def core (e : Exclusion) : List Char := dropStars e.pattern.toList

def contains (text part : List Char) : Bool := Glob.anyEnd part.isPrefixOf text

def excludes (e : Exclusion) (path : String) : Bool :=
  e.glob.accepts path ||
    (e.core ≠ [] && e.core ≠ ['/'] && contains path.toList e.core)

end Exclusion

end LayoutLint
