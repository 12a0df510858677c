import LayoutLint.Source.Grammar

/-! # Phrases

The phrases of a Go source that contain each other.
-/

namespace LayoutLint.Source

inductive Phrase where
  | type
  | simpleType
  | typeElem
  | parameters
  | unary
  | expression
  | literalValue
  | block
  | statement
  | ifStatement
  deriving DecidableEq, Repr

namespace Productions

open Grammar

/-- Between brackets, where line feeds mean nothing. -/
def bracketed (left : String) (body : Grammar Phrase) (right : String) : Grammar Phrase :=
  inMode .bracket (mark left ++ body ++ mark right)

/-- Between brackets, in which line feeds end what may end. -/
def lineGroup (left : String) (item : Grammar Phrase) (right : String) : Grammar Phrase :=
  mark left ++ inMode .line (lines item) ++ mark right

/-- The mark, if no line feed ends what stands before it. -/
def onLine (text : String) : Grammar Phrase := sameLine ++ mark text

def name : Grammar Phrase := word .identifier []

end Productions

end LayoutLint.Source
