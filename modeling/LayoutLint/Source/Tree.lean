import LayoutLint.Source.Token

/-! # Trees

The concrete tree of a source: its leaves are tokens and comments, in the order of the text.
A comment hangs in the innermost node in which it stands between two tokens. The tree of a text
with syntax errors has nodes for what fits nowhere and leaves for tokens that the text lacks.
-/

namespace LayoutLint.Source

inductive NodeKind where
  /-- A keyword, operator or punctuation mark. -/
  | mark
  | identifier
  | typeIdentifier
  | fieldIdentifier
  | packageIdentifier
  | labelName
  | literal
  | stringLiteral
  /-- One of `nil`, `true`, `false` and `iota`. -/
  | constant
  | comment
  /-- What fits nowhere. -/
  | error
  | sourceFile
  | packageClause
  | importDeclaration
  | importSpec
  | importSpecList
  | constDeclaration
  | constSpec
  | varDeclaration
  | varSpec
  | varSpecList
  | typeDeclaration
  | typeSpec
  | typeAlias
  | functionDeclaration
  | methodDeclaration
  | typeParameterList
  | typeParameterDeclaration
  | parameterList
  | parameterDeclaration
  | variadicParameterDeclaration
  | genericType
  | typeArguments
  | typeElem
  | qualifiedType
  | parenthesizedType
  | pointerType
  | arrayType
  | implicitLengthArrayType
  | sliceType
  | mapType
  | channelType
  | functionType
  | negatedType
  | structType
  | fieldDeclarationList
  | fieldDeclaration
  | interfaceType
  | methodElem
  | expressionList
  | unaryExpression
  | binaryExpression
  | parenthesizedExpression
  | selectorExpression
  | indexExpression
  | sliceExpression
  | typeInstantiationExpression
  | typeAssertionExpression
  | typeConversionExpression
  | callExpression
  | argumentList
  | variadicArgument
  | compositeLiteral
  | literalValue
  | keyedElement
  | funcLiteral
  | block
  | statementList
  | emptyStatement
  | expressionStatement
  | sendStatement
  | receiveStatement
  | incStatement
  | decStatement
  | assignmentStatement
  | shortVarDeclaration
  | labeledStatement
  | fallthroughStatement
  | breakStatement
  | continueStatement
  | gotoStatement
  | returnStatement
  | goStatement
  | deferStatement
  | ifStatement
  | forStatement
  | forClause
  | rangeClause
  | expressionSwitchStatement
  | expressionCase
  | defaultCase
  | typeSwitchStatement
  | typeCase
  | selectStatement
  | communicationCase
  deriving DecidableEq, Repr

namespace NodeKind

/-- The name under which an unrecognized top-level node is reported. -/
def name : NodeKind → String
  | error => "ERROR"
  | block => "block"
  | expressionStatement => "expression_statement"
  | sendStatement => "send_statement"
  | incStatement => "inc_statement"
  | decStatement => "dec_statement"
  | assignmentStatement => "assignment_statement"
  | shortVarDeclaration => "short_var_declaration"
  | labeledStatement => "labeled_statement"
  | fallthroughStatement => "fallthrough_statement"
  | breakStatement => "break_statement"
  | continueStatement => "continue_statement"
  | gotoStatement => "goto_statement"
  | returnStatement => "return_statement"
  | goStatement => "go_statement"
  | deferStatement => "defer_statement"
  | ifStatement => "if_statement"
  | forStatement => "for_statement"
  | expressionSwitchStatement => "expression_switch_statement"
  | typeSwitchStatement => "type_switch_statement"
  | selectStatement => "select_statement"
  | _ => "node"

end NodeKind

/-- The part that a child plays in its parent. -/
inductive Field where
  | name
  | receiver
  | parameters
  | result
  | body
  | type
  | left
  | right
  | operator
  | operand
  deriving DecidableEq, Repr

inductive Tree where
  | leaf (field : Option Field) (kind : NodeKind) (token : Token)
  | comment (comment : Comment)
  /-- A token that should stand at an offset and does not; a mark is known by its text. -/
  | missing (field : Option Field) (kind : NodeKind) (text : String) (offset : Nat)
  | node (field : Option Field) (kind : NodeKind) (children : List Tree)
  deriving Repr

namespace Tree

def kind : Tree → NodeKind
  | leaf _ k _ => k
  | comment _ => .comment
  | missing _ k _ _ => k
  | node _ k _ => k

def field? : Tree → Option Field
  | leaf f _ _ => f
  | comment _ => none
  | missing f _ _ _ => f
  | node f _ _ => f

/-- The tree in the part `f` of its parent; a comment never has a part. -/
def withField (f : Field) : Tree → Tree
  | leaf _ k t => leaf (some f) k t
  | comment c => comment c
  | missing _ k text o => missing (some f) k text o
  | node _ k cs => node (some f) k cs

def children : Tree → List Tree
  | node _ _ cs => cs
  | _ => []

def isComment (t : Tree) : Bool := t.kind = .comment

/-- Every node but the marks is named. -/
def isNamed (t : Tree) : Bool := t.kind ≠ .mark

def namedChildren (t : Tree) : List Tree := t.children.filter isNamed

/-- The first child in the part `f`. -/
def child? (t : Tree) (f : Field) : Option Tree := t.children.find? (·.field? = some f)

def text : Tree → String
  | leaf _ _ t => t.text
  | comment c => c.text
  | missing _ _ _ _ => ""
  | node _ _ _ => ""

/-- The tree is the mark with the given text, in the text or not. -/
def isMark (text : String) : Tree → Bool
  | leaf _ k t => k = .mark && t.text == text
  | missing _ k markText _ => k = .mark && markText == text
  | _ => false

def isMissing : Tree → Bool
  | missing _ _ _ _ => true
  | _ => false

mutual

/-- The tree has a node for what fits nowhere, or lacks a token. -/
def hasError : Tree → Bool
  | leaf _ k _ => k = .error
  | comment _ => false
  | missing _ _ _ _ => true
  | node _ k cs => k = .error || hasErrorIn cs

def hasErrorIn : List Tree → Bool
  | [] => false
  | t :: ts => t.hasError || hasErrorIn ts

end

mutual

/-- The offset of the first byte. -/
def start : Tree → Nat
  | leaf _ _ t => t.start
  | comment c => c.span.start
  | missing _ _ _ o => o
  | node _ _ cs => startOf cs

def startOf : List Tree → Nat
  | [] => 0
  | t :: _ => t.start

end

mutual

/-- The offset after the last byte. -/
def stop : Tree → Nat
  | leaf _ _ t => t.stop
  | comment c => c.span.stop
  | missing _ _ _ o => o
  | node _ _ cs => stopOf cs

def stopOf : List Tree → Nat
  | [] => 0
  | [t] => t.stop
  | _ :: t :: ts => stopOf (t :: ts)

end

def span (t : Tree) : Span := ⟨t.start, t.stop⟩

mutual

/-- The tokens of the leaves, in order. -/
def tokens : Tree → List Token
  | leaf _ _ t => [t]
  | comment _ => []
  | missing _ _ _ _ => []
  | node _ _ cs => tokensOf cs

def tokensOf : List Tree → List Token
  | [] => []
  | t :: ts => t.tokens ++ tokensOf ts

end

mutual

def size : Tree → Nat
  | leaf _ _ _ => 1
  | comment _ => 1
  | missing _ _ _ _ => 1
  | node _ _ cs => sizeOfAll cs + 1

def sizeOfAll : List Tree → Nat
  | [] => 0
  | t :: ts => t.size + sizeOfAll ts

end

end Tree

end LayoutLint.Source
