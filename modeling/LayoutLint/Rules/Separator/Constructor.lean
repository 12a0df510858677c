import LayoutLint.Outline

/-! # Constructors

A function constructs a structure if it declares it as a result, or if one of its own
statements returns the address of a literal of it, directly or through a variable that the last
assignment bound to such an address.
-/

namespace LayoutLint.Separator

/-- For each variable the type whose literal it points to, the latest binding first. -/
abbrev Bindings := List (String × Option String)

namespace Bindings

def bind (b : Bindings) (name : String) (type? : Option String) : Bindings := (name, type?) :: b

def typeOf? (b : Bindings) (name : String) : Option String := (b.lookup name).join

end Bindings

/-- The type whose literal's address the expression takes. -/
def addressedType? : Expr → Option String
  | .addressOf type => some type
  | _ => none

/-- Binds each target to the value in its place; a target without a value is unbound. -/
def assign (b : Bindings) : List (Option String) → List Expr → Bindings
  | [], _ => b
  | target :: targets, values =>
    let b' := match target with
      | some name => b.bind name (values.head?.bind addressedType?)
      | none => b
    assign b' targets values.tail

/-- One of the values is the address of a literal of `name`. -/
def returnsAddress (name : String) (b : Bindings) (values : List Expr) : Bool :=
  values.any fun
    | .addressOf type => type == name
    | .ident x => b.typeOf? x == some name
    | .other => false

/-- One of the statements returns the address of a literal of `name`. -/
def someReturn (name : String) : Bindings → List Stmt → Bool
  | _, [] => false
  | b, .assign targets values :: rest => someReturn name (assign b targets values) rest
  | b, .returns values :: rest => returnsAddress name b values || someReturn name b rest
  | b, .other :: rest => someReturn name b rest

def declaresResult (name : String) (f : FuncDecl) : Bool :=
  f.results.any fun
    | .named n => n == name
    | .pointer n => n == name
    | .other => false

def isConstructorOf (f : FuncDecl) (name : String) : Bool :=
  declaresResult name f || f.body.any fun body => someReturn name [] body.statements

end LayoutLint.Separator
