import LayoutLint.Source.Productions.Statements

/-! # Source files

A file is a sequence of top-level declarations and statements, each with a terminator.
-/

namespace LayoutLint.Source

namespace Productions

open Grammar

def packageClause : Grammar Phrase :=
  node .packageClause (mark "package" ++ word .packageIdentifier [])

def importSpec : Grammar Phrase :=
  node .importSpec (opt (choice [mark ".", word .packageIdentifier []]) ++ stringLiteral)

def importDeclaration : Grammar Phrase :=
  node .importDeclaration
    (mark "import" ++
      choice [node .importSpecList (lineGroup "(" importSpec ")"), importSpec])

def body : Grammar Phrase := opt (sameLine ++ label .body (phrase .block))

def functionDeclaration : Grammar Phrase :=
  node .functionDeclaration
    (mark "func" ++ label .name name ++ opt typeParameters ++
      label .parameters (phrase .parameters) ++ result ++ body)

def methodDeclaration : Grammar Phrase :=
  node .methodDeclaration
    (mark "func" ++ label .receiver (phrase .parameters) ++
      label .name (word .fieldIdentifier []) ++
      label .parameters (phrase .parameters) ++ result ++ body)

def sourceFile : Grammar Phrase :=
  many
      (choice
          [packageClause, importDeclaration, functionDeclaration, methodDeclaration,
           phrase .statement] ++
        terminator) ++
    endOfText

end Productions

/-- What each phrase stands for. -/
def Phrase.body : Phrase → Grammar Phrase
  | type => Productions.type
  | simpleType => Productions.simpleType
  | typeElem => Productions.typeElem
  | parameters => Productions.parameters
  | unary => Productions.unary
  | expression => Productions.expression
  | literalValue => Productions.literalValue
  | block => Productions.block
  | statement => Productions.statement
  | ifStatement => Productions.ifStatement

/-- A bound on the depth of the reading: between two tokens fewer than a thousand steps nest. -/
def readingDepth (ts : List Token) : Nat := 1000 * (ts.length + 1)

/-- The tree of the tokens of a whole file, if they form one. -/
def parse? (ts : List Token) : Option Tree :=
  (Productions.sourceFile.read Phrase.body (readingDepth ts) .line [] ts).map
    fun (trees, _) => .node none .sourceFile trees.reverse

end LayoutLint.Source
