import LayoutLint.Source.Parse

/-! # The outline of a tree

Top-level nodes become declarations, and comments, blocks and `defer` statements are gathered
from every depth.
-/

namespace LayoutLint.Outline

open Source

/-! ## Types -/

mutual

/-- The name of `T`, `*T`, `T[K]` or `*T[K]`, looking through parentheses. -/
def baseTypeName? : Tree → Option String
  | .leaf _ kind token => if kind = .typeIdentifier then some token.text else none
  | .comment _ => none
  | .missing _ kind _ _ => if kind = .typeIdentifier then some "" else none
  | .node field kind children =>
    match kind with
    | .genericType =>
      (Tree.child? (.node field kind children) .type).bind fun t =>
        if t.kind = .typeIdentifier then some t.text else none
    | .pointerType => innerTypeName? false children
    | .parenthesizedType => innerTypeName? true children
    | _ => none

/-- The name of the first named tree, which may have to be no pointer. A comment is named and
has no name of a type. -/
def innerTypeName? (pointers : Bool) : List Tree → Option String
  | [] => none
  | t :: ts =>
    if !t.isNamed then innerTypeName? pointers ts
    else if !pointers && t.kind = .pointerType then none
    else baseTypeName? t

end

def typeRef (t : Tree) : TypeRef :=
  match t.kind with
  | .typeIdentifier | .genericType => (baseTypeName? t).elim .other .named
  | .pointerType => (baseTypeName? t).elim .other .pointer
  | _ => .other

/-- The result types; a parameter with several names counts once for each. -/
def resultTypes (t : Tree) : List TypeRef :=
  if t.kind ≠ .parameterList then [typeRef t]
  else t.namedChildren.flatMap fun param =>
    if param.kind = .parameterDeclaration || param.kind = .variadicParameterDeclaration then
      match param.child? .type with
      | none => []
      | some type =>
        let names := (param.children.filter (·.field? = some .name)).length
        List.replicate (max names 1) (typeRef type)
    else []

/-- The type of the first parameter that is not variadic. -/
def firstParameterType? (t : Tree) : Option Tree :=
  (t.namedChildren.find? (·.kind = .parameterDeclaration)).bind (·.child? .type)

/-! ## Bodies -/

/-- The offsets of the first `{` and of the last `}` in the text among the children. -/
def bracePair? (t : Tree) : Option (Nat × Nat) := do
  let left ← t.children.find? (·.isMark "\x7b")
  let right ← t.children.reverse.find? fun c => c.isMark "\x7d" && !c.isMissing
  return (left.start, right.start)

/-- The statements of a block, without comments. -/
def blockStatements (t : Tree) : List Tree :=
  t.namedChildren.flatMap fun child =>
    match child.kind with
    | .comment => []
    | .statementList => child.namedChildren.filter (!·.isComment)
    | _ => [child]

def expression (t : Tree) : Expr :=
  match t.kind with
  | .identifier => .ident t.text
  | .unaryExpression =>
    let literalType? : Option Tree := do
      let operator ← t.child? .operator
      let operand ← t.child? .operand
      if operator.text == "&" && operand.kind = .compositeLiteral then operand.child? .type
      else none
    let name? := literalType?.bind fun type =>
      if type.kind = .typeIdentifier || type.kind = .genericType then baseTypeName? type else none
    name?.elim .other .addressOf
  | _ => .other

def expressions (t : Tree) : List Expr :=
  (t.namedChildren.filter (!·.isComment)).map expression

def assignment (t : Tree) : Stmt :=
  let target (c : Tree) : Option String := if c.kind = .identifier then some c.text else none
  .assign
    ((t.child? .left).elim [] fun left =>
      (left.namedChildren.filter (!·.isComment)).map target)
    ((t.child? .right).elim [] expressions)

def statement (t : Tree) : Stmt :=
  match t.kind with
  | .returnStatement =>
    .returns ((t.namedChildren.find? (·.kind = .expressionList)).elim [] expressions)
  | .assignmentStatement =>
    if (t.child? .operator).any (·.text == "=") then assignment t else .other
  | .shortVarDeclaration => assignment t
  | _ => .other

def functionBody? (t : Tree) : Option FuncBody :=
  (bracePair? t).map fun (lbrace, rbrace) =>
    { lbrace, rbrace
      firstStmt := (blockStatements t).head?.map Tree.start
      statements := (blockStatements t).map statement }

/-! ## Declarations -/

def function (t : Tree) : FuncDecl where
  span := t.span
  name := (t.child? .name).elim "" Tree.text
  receiver := do
    let list ← t.child? .receiver
    baseTypeName? (← firstParameterType? list)
  params := (t.child? .parameters).elim Span.zero Tree.span
  results := (t.child? .result).elim [] resultTypes
  body := (t.child? .body).bind functionBody?

def typeShape (t : Tree) : TypeShape :=
  match t.kind, (t.child? .type).map Tree.kind with
  | .typeSpec, some .structType => .struct
  | .typeSpec, some .interfaceType => .interface
  | _, _ => .other

def typeSpecs (t : Tree) : List TypeSpec :=
  (t.namedChildren.filter fun c => c.kind = .typeAlias || c.kind = .typeSpec).map fun c =>
    { name := (c.child? .name).elim "" Tree.text, shape := typeShape c }

mutual

/-- The imports of a declaration, in parentheses or not. -/
def importSpans : Tree → List Span
  | .node _ _ children => importSpansOf children
  | _ => []

def importSpansOf : List Tree → List Span
  | [] => []
  | t :: ts =>
    (match t.kind with
      | .importSpec => [t.span]
      | .importSpecList => importSpans t
      | _ => []) ++ importSpansOf ts

end

/-- The declaration that a top-level node is; package clauses, comments and empty statements
are none. -/
def decl? (t : Tree) : Option Decl :=
  match t.kind with
  | .packageClause | .comment | .emptyStatement => none
  | .importDeclaration => some (.gen t.span .imports [])
  | .constDeclaration => some (.gen t.span .consts [])
  | .varDeclaration => some (.gen t.span .vars [])
  | .typeDeclaration => some (.gen t.span .types (typeSpecs t))
  | .functionDeclaration | .methodDeclaration => some (.func (function t))
  | kind => some (.unrecognized t.span kind.name)

/-! ## What stands at any depth -/

/-- What a tree holds at any depth. -/
structure Nested where
  comments : List Comment := []
  blocks : List Block := []
  defers : List Span := []
  deriving DecidableEq, Repr

namespace Nested

def append (a b : Nested) : Nested :=
  ⟨a.comments ++ b.comments, a.blocks ++ b.blocks, a.defers ++ b.defers⟩

instance : Append Nested := ⟨append⟩

end Nested

/-- The node has a body of its own. -/
def isFunctionLike (t : Tree) : Bool :=
  t.kind = .functionDeclaration || t.kind = .methodDeclaration || t.kind = .funcLiteral

/-- What a node is itself, not looking below it. -/
def nestedHere (t : Tree) (isBody : Bool) : Nested :=
  match t, t.kind with
  | .comment c, _ => { comments := [c] }
  | _, .deferStatement => { defers := [t.span] }
  | _, .block | _, .expressionSwitchStatement | _, .typeSwitchStatement | _, .selectStatement =>
    match bracePair? t with
    | none => {}
    | some (lbrace, rbrace) =>
      { blocks := [⟨lbrace, rbrace, if isBody then .functionBody else .statement⟩] }
  | _, _ => {}

/-- The children, each with whether it is the body: the first of them in that part, if the parent
has a body. -/
def markBody (hasBody : Bool) : List Tree → List (Tree × Bool)
  | [] => []
  | c :: cs =>
    let isBody := hasBody && c.field? = some .body
    (c, isBody) :: markBody (hasBody && !isBody) cs

/-- The named children, each with whether it is the body of its function. -/
def childrenToVisit (t : Tree) : List (Tree × Bool) :=
  (markBody (isFunctionLike t) t.children).filter (·.1.isNamed)

theorem sizeOfAll_append (ts us : List Tree) :
    Tree.sizeOfAll (ts ++ us) = Tree.sizeOfAll ts + Tree.sizeOfAll us := by
  induction ts with
  | nil => simp [Tree.sizeOfAll]
  | cons t ts ih => simp only [List.cons_append, Tree.sizeOfAll, ih]; omega

theorem sizeOfAll_reverse (ts : List Tree) : Tree.sizeOfAll ts.reverse = Tree.sizeOfAll ts := by
  induction ts with
  | nil => rfl
  | cons t ts ih =>
    simp only [List.reverse_cons, sizeOfAll_append, ih, Tree.sizeOfAll]; omega

theorem sizeOfAll_filter_le (p : Tree → Bool) (ts : List Tree) :
    Tree.sizeOfAll (ts.filter p) ≤ Tree.sizeOfAll ts := by
  induction ts with
  | nil => simp [Tree.sizeOfAll]
  | cons t ts ih =>
    simp only [List.filter_cons]
    split <;> simp only [Tree.sizeOfAll] <;> omega

theorem sizeOfAll_namedChildren_lt (t : Tree) : Tree.sizeOfAll t.namedChildren < t.size := by
  have h := sizeOfAll_filter_le Tree.isNamed t.children
  cases t with
  | leaf => simp [Tree.namedChildren, Tree.children, Tree.sizeOfAll, Tree.size]
  | comment => simp [Tree.namedChildren, Tree.children, Tree.sizeOfAll, Tree.size]
  | missing => simp [Tree.namedChildren, Tree.children, Tree.sizeOfAll, Tree.size]
  | node =>
    simp only [Tree.children] at h
    simp only [Tree.namedChildren, Tree.children, Tree.size]
    omega

theorem map_fst_markBody (hasBody : Bool) (cs : List Tree) :
    (markBody hasBody cs).map Prod.fst = cs := by
  induction cs generalizing hasBody with
  | nil => rfl
  | cons c cs ih => rw [markBody, List.map_cons, ih]

theorem map_fst_childrenToVisit (t : Tree) :
    (childrenToVisit t).map Prod.fst = t.namedChildren := by
  rw [Tree.namedChildren, ← map_fst_markBody (isFunctionLike t) t.children, List.filter_map]
  rfl

/-- Visits a stack of nodes, each with whether it is the body of a function, the last pushed
first. -/
def collect (found : Nested) : List (Tree × Bool) → Nested
  | [] => found
  | (t, isBody) :: stack =>
    collect (nestedHere t isBody ++ found) ((childrenToVisit t).reverse ++ stack)
termination_by stack => Tree.sizeOfAll (stack.map Prod.fst)
decreasing_by
  simp only [List.map_append, List.map_reverse, map_fst_childrenToVisit, sizeOfAll_append,
    sizeOfAll_reverse, List.map_cons, Tree.sizeOfAll]
  have := sizeOfAll_namedChildren_lt t
  omega

/-- The comments, blocks and `defer` statements at any depth. -/
def nested (t : Tree) : Nested := collect {} [(t, false)]

/-! ## Files -/

def commentLe (a b : Comment) : Bool := a.span.le b.span

/-- The order by opening brace, then by closing brace. -/
def blockLe (a b : Block) : Bool :=
  a.lbrace < b.lbrace || (a.lbrace == b.lbrace && a.rbrace ≤ b.rbrace)

/-- The outline of a file, with or without syntax errors. The last package clause counts. -/
def ofTree (t : Tree) : Outline where
  package := ((t.namedChildren.filter (·.kind = .packageClause)).getLast?).elim Span.zero Tree.span
  imports := (t.namedChildren.filter (·.kind = .importDeclaration)).flatMap importSpans
  decls := t.namedChildren.filterMap decl?
  comments := (nested t).comments.mergeSort commentLe
  blocks := (nested t).blocks.mergeSort blockLe
  defers := (nested t).defers.mergeSort Span.le
  hasSyntaxErrors := t.hasError

/-- The outline of a text. A text that is no source file has an empty outline with syntax
errors. -/
def ofText (cs : List Char) : Outline :=
  (parse? (tokens cs)).elim { hasSyntaxErrors := true } ofTree

end LayoutLint.Outline
