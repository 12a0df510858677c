import LayoutLint.Span

/-! # Outlines

What the layout rules look at in a source file: its declarations, comments, brace blocks and
`defer` statements, each with its byte offsets. An outline may come from a parsed text or from
elsewhere, so nothing is assumed of its offsets or of the order of its lists.
-/

namespace LayoutLint

structure Comment where
  /-- The whole comment, delimiters included. -/
  span : Span
  text : String
  deriving DecidableEq, Repr

inductive BlockKind where
  /-- The body of a function, a method or a function literal. -/
  | functionBody
  /-- Any other braces around statements. -/
  | statement
  deriving DecidableEq, Repr

/-- A statement block, by the offsets of its braces. -/
structure Block where
  lbrace : Nat
  rbrace : Nat
  kind : BlockKind
  deriving DecidableEq, Repr

/-- The keyword of a declaration that is not a function. -/
inductive DeclKeyword where
  | imports
  | consts
  | vars
  | types
  deriving DecidableEq, Repr

inductive TypeShape where
  /-- Neither a structure nor an interface, or another name for a type. -/
  | other
  | struct
  | interface
  deriving DecidableEq, Repr

structure TypeSpec where
  name : String
  shape : TypeShape
  deriving DecidableEq, Repr

/-- A result type, as far as it names a type. -/
inductive TypeRef where
  | named (name : String)
  | pointer (name : String)
  | other
  deriving DecidableEq, Repr

inductive Expr where
  /-- The address of a composite literal of the named type. -/
  | addressOf (typeName : String)
  | ident (name : String)
  | other
  deriving DecidableEq, Repr

inductive Stmt where
  | returns (values : List Expr)
  /-- An assignment or short variable declaration; a target that is no plain name is `none`. -/
  | assign (targets : List (Option String)) (values : List Expr)
  | other
  deriving DecidableEq, Repr

structure FuncBody where
  lbrace : Nat
  rbrace : Nat
  /-- Where the first statement starts; comments are no statements. -/
  firstStmt : Option Nat
  statements : List Stmt
  deriving DecidableEq, Repr

structure FuncDecl where
  span : Span
  name : String
  /-- The name of the receiver's type, if the receiver has one that reduces to a name. -/
  receiver : Option String
  /-- The parameter list with its parentheses. -/
  params : Span
  results : List TypeRef
  body : Option FuncBody
  deriving DecidableEq, Repr

inductive Decl where
  | gen (span : Span) (keyword : DeclKeyword) (specs : List TypeSpec)
  | func (decl : FuncDecl)
  /-- A top-level node of another kind. -/
  | unrecognized (span : Span) (nodeKind : String)
  deriving DecidableEq, Repr

namespace Decl

def span : Decl → Span
  | gen span _ _ => span
  | func decl => decl.span
  | unrecognized span _ => span

def func? : Decl → Option FuncDecl
  | func decl => some decl
  | _ => none

end Decl

structure Outline where
  package : Span := Span.zero
  /-- One span for each import, not for each import declaration. -/
  imports : List Span := []
  decls : List Decl := []
  comments : List Comment := []
  blocks : List Block := []
  defers : List Span := []
  hasSyntaxErrors : Bool := false
  deriving DecidableEq, Repr

namespace Outline

def functions (o : Outline) : List FuncDecl := o.decls.filterMap Decl.func?

end Outline

end LayoutLint
