import LayoutLint.Source.Productions.Expressions

/-! # Statements

Declarations of constants, variables and types are statements too.
-/

namespace LayoutLint.Source.Productions

open Grammar

def assignmentOperators : List String :=
  ["=", "+=", "-=", "*=", "/=", "%=", "&=", "|=", "^=", "<<=", ">>=", "&^="]

/-- A statement that an expression starts. What it is shows only after the expression. -/
def simpleStatement : Grammar Phrase :=
  scope
    (phrase .expression ++
      choice
        [many (onLine "," ++ phrase .expression) ++ wrap .expressionList (some .left) ++
          choice
            [onLine ":=" ++ label .right expressionList ++ wrap .shortVarDeclaration,
             sameLine ++ label .operator (marks assignmentOperators) ++
              label .right expressionList ++ wrap .assignmentStatement],
         onLine "<-" ++ phrase .expression ++ wrap .sendStatement,
         onLine "++" ++ wrap .incStatement,
         onLine "--" ++ wrap .decStatement,
         wrap .expressionStatement])

/-! ## Declarations -/

def constSpec : Grammar Phrase :=
  node .constSpec
    (sepBy name (onLine ",") ++
      opt (sameLine ++ opt (phrase .type) ++ mark "=" ++ expressionList))

def varSpec : Grammar Phrase :=
  node .varSpec
    (sepBy name (mark ",") ++
      choice
        [phrase .type ++ opt (onLine "=" ++ expressionList),
         mark "=" ++ expressionList])

/-- A new name for a type, or a new type. A bracket after the name that can be read as the
length of an array is one. -/
def typeSpec : Grammar Phrase :=
  let typeName : Grammar Phrase := label .name (word .typeIdentifier [])
  choice
    [node .typeAlias (typeName ++ opt typeParameters ++ mark "=" ++ label .type (phrase .type)),
     node .typeSpec (typeName ++ label .type (phrase .type)),
     node .typeSpec (typeName ++ typeParameters ++ label .type (phrase .type))]

/-- One item after the keyword, or several in parentheses. -/
def declaration (kind : NodeKind) (keyword : String) (item : Grammar Phrase) : Grammar Phrase :=
  node kind (mark keyword ++ choice [lineGroup "(" item ")", item])

/-! ## Blocks and control -/

def labelName : Grammar Phrase := word .labelName []

/-- The marks that end a list of statements. -/
def endOfStatements : Grammar Phrase := marks ["\x7d", "case", "default"]

/-- A label with nothing after it, at the end of a list of statements. -/
def emptyLabel : Grammar Phrase :=
  node .labeledStatement (labelName ++ onLine ":" ++ ahead endOfStatements)

def statementList : Grammar Phrase :=
  let item : Grammar Phrase := choice [emptyLabel, phrase .statement]
  opt (inMode .line (node .statementList (sepBy item terminator)) ++ opt terminator)

def block : Grammar Phrase := node .block (mark "\x7b" ++ statementList ++ mark "\x7d")

def labeledStatement : Grammar Phrase :=
  node .labeledStatement (labelName ++ onLine ":" ++ phrase .statement)

def ifStatement : Grammar Phrase :=
  node .ifStatement
    (mark "if" ++
      inMode .header (opt (simpleStatement ++ mark ";") ++ phrase .expression) ++
      phrase .block ++
      opt (onLine "else" ++ choice [phrase .block, phrase .ifStatement]))

def forClause : Grammar Phrase :=
  node .forClause
    (opt simpleStatement ++ mark ";" ++ opt (phrase .expression) ++ mark ";" ++
      opt simpleStatement)

def rangeClause : Grammar Phrase :=
  node .rangeClause
    (opt (expressionList ++ marks [":=", "="]) ++ mark "range" ++ phrase .expression)

def forStatement : Grammar Phrase :=
  node .forStatement
    (mark "for" ++
      inMode .header (choice [forClause, rangeClause, phrase .expression, empty]) ++
      phrase .block)

/-- The optional statement before the subject of a switch. -/
def initializer : Grammar Phrase := opt (simpleStatement ++ mark ";")

def defaultCase : Grammar Phrase :=
  node .defaultCase (mark "default" ++ mark ":" ++ statementList)

/-- The cases of a switch or select, in braces. -/
def cases (item : Grammar Phrase) : Grammar Phrase :=
  mark "\x7b" ++ many (choice [item, defaultCase]) ++ mark "\x7d"

def expressionCase : Grammar Phrase :=
  node .expressionCase
    (mark "case" ++ inMode .bracket (expressionList ++ mark ":") ++ statementList)

def expressionSwitch : Grammar Phrase :=
  node .expressionSwitchStatement
    (mark "switch" ++ inMode .header (initializer ++ opt (phrase .expression)) ++
      cases expressionCase)

def typeCase : Grammar Phrase :=
  node .typeCase
    (mark "case" ++ inMode .bracket (sepBy (phrase .type) (mark ",") ++ mark ":") ++
      statementList)

def typeSwitch : Grammar Phrase :=
  node .typeSwitchStatement
    (mark "switch" ++
      inMode .header
        (initializer ++ opt (expressionList ++ mark ":=") ++ phrase .expression ++
          mark "." ++ mark "(" ++ mark "type" ++ mark ")") ++
      cases typeCase)

/-- A send or a receive. -/
def communication : Grammar Phrase :=
  scope
    (phrase .expression ++
      choice
        [mark "<-" ++ phrase .expression ++ wrap .sendStatement,
         many (mark "," ++ phrase .expression) ++ wrap .expressionList (some .left) ++
          marks [":=", "="] ++ phrase .expression ++ wrap .receiveStatement,
         wrap .receiveStatement])

def communicationCase : Grammar Phrase :=
  node .communicationCase
    (mark "case" ++ inMode .bracket (communication ++ mark ":") ++ statementList)

def selectStatement : Grammar Phrase :=
  node .selectStatement (mark "select" ++ cases communicationCase)

def statement : Grammar Phrase :=
  choice
    [labeledStatement,
     simpleStatement,
     node .returnStatement (mark "return" ++ opt (sameLine ++ expressionList)),
     phrase .ifStatement,
     node .deferStatement (mark "defer" ++ phrase .expression),
     forStatement,
     phrase .block,
     typeSwitch,
     expressionSwitch,
     selectStatement,
     node .goStatement (mark "go" ++ phrase .expression),
     declaration .varDeclaration "var" varSpec,
     declaration .constDeclaration "const" constSpec,
     declaration .typeDeclaration "type" typeSpec,
     node .emptyStatement (mark ";"),
     node .breakStatement (mark "break" ++ opt (sameLine ++ labelName)),
     node .continueStatement (mark "continue" ++ opt (sameLine ++ labelName)),
     node .gotoStatement (mark "goto" ++ labelName),
     node .fallthroughStatement (mark "fallthrough")]

end LayoutLint.Source.Productions
