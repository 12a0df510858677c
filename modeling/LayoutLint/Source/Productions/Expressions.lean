import LayoutLint.Source.Productions.Types

/-! # Expressions

Operators of all precedences are kept in one flat chain: no rule asks how tightly they bind.
-/

namespace LayoutLint.Source.Productions

open Grammar

/-- The constants that have names of their own. -/
def constants : List String := ["nil", "true", "false", "iota"]

def unaryOperators : List String := ["+", "-", "!", "^", "*", "&", "<-"]

def binaryOperators : List String :=
  ["||", "&&", "==", "!=", "<", "<=", ">", ">=", "+", "-", "|", "^", "*", "/", "%", "<<", ">>",
   "&", "&^"]

def expressionList : Grammar Phrase :=
  node .expressionList (sepBy (phrase .expression) (onLine ","))

def literalElement : Grammar Phrase := choice [phrase .literalValue, phrase .expression]

def literalValue : Grammar Phrase :=
  node .literalValue
    (bracketed "\x7b"
      (commaList
        (scope (literalElement ++ opt (mark ":" ++ literalElement ++ wrap .keyedElement))))
      "\x7d")

/-- A type literal that a composite literal may have in any place. -/
def literalType : Grammar Phrase :=
  choice [mapType, sliceType, arrayType, implicitLengthArrayType, structType]

/-- A composite literal. With a type name it is read only where a brace cannot open a block. -/
def compositeLiteral : Grammar Phrase :=
  choice
    [node .compositeLiteral (label .type literalType ++ phrase .literalValue),
     noBlock ++ node .compositeLiteral (label .type typeName ++ sameLine ++ phrase .literalValue)]

def functionLiteral : Grammar Phrase :=
  node .funcLiteral
    (mark "func" ++ inMode .bracket (label .parameters (phrase .parameters) ++ result) ++
      label .body (phrase .block))

/-- The conversion to a type that is no name. -/
def typeConversion : Grammar Phrase :=
  node .typeConversionExpression
    (choice
        [sliceType, arrayType, mapType, channelType, functionType, interfaceType, structType,
         parenthesizedType] ++
      bracketed "(" (phrase .expression ++ opt (mark ",")) ")")

def argument : Grammar Phrase :=
  scope (phrase .expression ++ opt (mark "..." ++ wrap .variadicArgument))

def arguments : Grammar Phrase := node .argumentList (bracketed "(" (commaList argument) ")")

/-- Arguments of which the first is a type. -/
def typeFirstArguments : Grammar Phrase :=
  node .argumentList
    (bracketed "("
      (phrase .type ++ many (mark "," ++ phrase .expression) ++ opt (mark ","))
      ")")

/-- An allocation, whose first argument is a type. -/
def allocation : Grammar Phrase :=
  node .callExpression
    (wordAmong .identifier ["new", "make"] ++ sameLine ++ typeFirstArguments)

def parenthesizedExpression : Grammar Phrase :=
  node .parenthesizedExpression (bracketed "(" (phrase .expression) ")")

def operand : Grammar Phrase :=
  choice
    [compositeLiteral,
     allocation,
     word .identifier constants,
     wordAmong .constant constants,
     literal .literal .literal,
     stringLiteral,
     functionLiteral,
     parenthesizedExpression,
     typeConversion]

/-- The bounds after the first colon of a slice expression. -/
def sliceBounds : Grammar Phrase :=
  mark ":" ++ opt (phrase .expression) ++ opt (mark ":" ++ phrase .expression)

/-- What follows an operand in brackets: an index, the bounds of a slice, or types. -/
def indexing : Grammar Phrase :=
  inMode .bracket
    (mark "[" ++
      choice
        [sliceBounds ++ mark "]" ++ wrap .sliceExpression,
         phrase .expression ++
          choice
            [sliceBounds ++ mark "]" ++ wrap .sliceExpression,
             many (mark "," ++ choice [phrase .expression, phrase .typeElem]) ++ opt (mark ",") ++
              mark "]" ++ wrap .indexExpression],
         sepBy (phrase .typeElem) (mark ",") ++ opt (mark ",") ++ mark "]" ++
          wrap .typeInstantiationExpression])

/-- What may follow an operand, as often as it does. -/
def suffix : Grammar Phrase :=
  sameLine ++
    choice
      [mark "." ++ word .fieldIdentifier [] ++ wrap .selectorExpression,
       mark "." ++ bracketed "(" (phrase .type) ")" ++ wrap .typeAssertionExpression,
       arguments ++ wrap .callExpression,
       indexing]

def unary : Grammar Phrase :=
  choice
    [node .unaryExpression
      (label .operator (marks unaryOperators) ++ label .operand (phrase .unary)),
     scope (operand ++ many suffix)]

def expression : Grammar Phrase :=
  let step : Grammar Phrase := sameLine ++ marks binaryOperators ++ phrase .unary
  scope (phrase .unary ++ opt (step ++ many step ++ wrap .binaryExpression))

end LayoutLint.Source.Productions
