import LayoutLint.Span

/-! # Findings

What a check finds in one file, before it is stamped with the rule's name and severity.
-/

namespace LayoutLint

structure Finding where
  span : Span
  message : String
  suggestion : Option String := none
  deriving DecidableEq, Repr

end LayoutLint
