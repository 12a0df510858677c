import LayoutLint.Source.Phrase

/-! # Types

Type names with their arguments, type literals, parameter lists and results.
-/

namespace LayoutLint.Source.Productions

open Grammar

def plainTypeName : Grammar Phrase := word .typeIdentifier []

def qualifiedTypeName : Grammar Phrase :=
  node .qualifiedType (word .packageIdentifier [] ++ onLine "." ++ word .typeIdentifier [])

def typeArguments : Grammar Phrase :=
  node .typeArguments
    (bracketed "[" (sepBy (phrase .typeElem) (mark ",") ++ opt (mark ",")) "]")

/-- A name, with a package before it or arguments after it. -/
def typeName : Grammar Phrase :=
  choice
    [node .genericType
      (label .type (choice [qualifiedTypeName, plainTypeName]) ++ sameLine ++ typeArguments),
     qualifiedTypeName,
     plainTypeName]

def sliceType : Grammar Phrase := node .sliceType (mark "[" ++ mark "]" ++ phrase .type)

def arrayType : Grammar Phrase :=
  node .arrayType (bracketed "[" (phrase .expression) "]" ++ phrase .type)

/-- An array whose literal gives its length. -/
def implicitLengthArrayType : Grammar Phrase :=
  node .implicitLengthArrayType (mark "[" ++ mark "..." ++ mark "]" ++ phrase .type)

def mapType : Grammar Phrase :=
  node .mapType (mark "map" ++ bracketed "[" (phrase .type) "]" ++ phrase .type)

def channelType : Grammar Phrase :=
  node .channelType
    (choice
      [mark "chan" ++ opt (mark "<-") ++ phrase .type,
       mark "<-" ++ mark "chan" ++ phrase .type])

def stringLiteral : Grammar Phrase := literal .string .stringLiteral

/-- An embedded type or names with their type, and an optional tag. What ends like a field after
a type name is embedded, even if a type on the next line could make an array of it. -/
def fieldDeclaration : Grammar Phrase :=
  node .fieldDeclaration
    (choice
      [opt (mark "*") ++ typeName ++ ahead (choice [terminator, mark "\x7d", stringLiteral]),
       sepBy (word .fieldIdentifier []) (onLine ",") ++ sameLine ++ phrase .type] ++
      opt (sameLine ++ stringLiteral))

def structType : Grammar Phrase :=
  node .structType
    (mark "struct" ++ node .fieldDeclarationList (lineGroup "\x7b" fieldDeclaration "\x7d"))

/-- The types of a union. -/
def typeElem : Grammar Phrase := node .typeElem (sepBy (phrase .type) (onLine "|"))

def pointerType : Grammar Phrase := node .pointerType (mark "*" ++ phrase .type)

def negatedType : Grammar Phrase := node .negatedType (mark "~" ++ phrase .type)

/-- A parameter: names with their type, a type alone, or the rest of the arguments. -/
def parameter : Grammar Phrase :=
  choice
    [node .variadicParameterDeclaration
      (opt (label .name name) ++ mark "..." ++ label .type (phrase .type)),
     node .parameterDeclaration
      (sepBy (label .name name) (mark ",") ++ label .type (phrase .type)),
     node .parameterDeclaration (label .type (phrase .type))]

def parameters : Grammar Phrase :=
  node .parameterList (bracketed "(" (commaList parameter) ")")

/-- An optional result: a parameter list, or one type without parentheses. -/
def result : Grammar Phrase :=
  opt (sameLine ++ label .result (choice [phrase .parameters, phrase .simpleType]))

def functionType : Grammar Phrase :=
  node .functionType (mark "func" ++ label .parameters (phrase .parameters) ++ result)

def interfaceElem : Grammar Phrase :=
  choice
    [node .methodElem (word .fieldIdentifier [] ++ sameLine ++ phrase .parameters ++ result),
     phrase .typeElem]

def interfaceType : Grammar Phrase :=
  node .interfaceType (mark "interface" ++ lineGroup "\x7b" interfaceElem "\x7d")

def simpleType : Grammar Phrase :=
  choice
    [typeName, pointerType, sliceType, arrayType, mapType, structType, functionType,
     interfaceType, channelType, negatedType]

def parenthesizedType : Grammar Phrase :=
  node .parenthesizedType (bracketed "(" (phrase .type) ")")

def type : Grammar Phrase := choice [phrase .simpleType, parenthesizedType]

def typeParameters : Grammar Phrase :=
  node .typeParameterList
    (bracketed "["
      (sepBy
          (node .typeParameterDeclaration
            (sepBy (label .name name) (mark ",") ++ phrase .typeElem))
          (mark ",") ++
        opt (mark ","))
      "]")

end LayoutLint.Source.Productions
