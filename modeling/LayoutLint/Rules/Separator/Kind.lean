import LayoutLint.Outline
import LayoutLint.Text.Uppercase

/-! # Kinds of declarations

What a declaration counts as within a bucket, and what counts about a function.
-/

namespace LayoutLint.Separator

inductive Kind where
  | imports
  | consts
  | vars
  /-- A type that is neither a structure nor an interface. -/
  | type
  | struct
  | interface
  | func
  deriving DecidableEq, Repr

namespace Kind

def name : Kind → String
  | imports => "import"
  | consts => "const"
  | vars => "var"
  | type => "type"
  | struct => "struct"
  | interface => "interface"
  | func => "func"

/-- A bucket with this kind only needs no further checks. -/
def standsAlone (k : Kind) : Bool := k ≠ .struct && k ≠ .func

end Kind

inductive Class where
  | ofKind (kind : Kind)
  /-- A type declaration that has not exactly one name; it counts as a type. -/
  | multiSpecType
  | unknown
  deriving DecidableEq, Repr

def Class.kind? : Class → Option Kind
  | ofKind k => some k
  | multiSpecType => some .type
  | unknown => none

def shapeKind : TypeShape → Kind
  | .struct => .struct
  | .interface => .interface
  | .other => .type

def classify : Decl → Class
  | .func _ => .ofKind .func
  | .unrecognized _ _ => .unknown
  | .gen _ .imports _ => .ofKind .imports
  | .gen _ .consts _ => .ofKind .consts
  | .gen _ .vars _ => .ofKind .vars
  | .gen _ .types [spec] => .ofKind (shapeKind spec.shape)
  | .gen _ .types _ => .multiSpecType

structure Traits where
  receiver : Option String
  /-- The name starts with an uppercase letter. -/
  exported : Bool
  /-- The name starts like that of a test. -/
  testing : Bool
  deriving DecidableEq, Repr

namespace Traits

def of (testPrefixes : List String) (f : FuncDecl) : Traits where
  receiver := f.receiver
  exported := f.name.toList.head?.any Text.isUppercase
  testing := testPrefixes.any fun p => p.toList.isPrefixOf f.name.toList

/-- The receiver in messages. -/
def label (t : Traits) : String := t.receiver.getD "<none>"

end Traits

end LayoutLint.Separator
