import LayoutLint.Outline
import LayoutLint.Text.Lines

/-! # Comment groups and separators

Comments that stand close together form a group. A group that holds a run of slashes of the
given width is a separator, and separators cut the declarations into buckets.
-/

namespace LayoutLint.Separator

structure Options where
  /-- The number of slashes in a separator. -/
  width : Nat := 80
  /-- The beginnings of the names of test functions. -/
  testPrefixes : List String := ["Test"]
  deriving DecidableEq, Repr

/-- The text of a separator. -/
def Options.token (o : Options) : String := String.ofList (List.replicate o.width '/')

/-! ## Groups -/

structure Group where
  /-- From the start of the first comment to the end of the last. -/
  span : Span
  /-- The texts of the comments, one after the other. -/
  text : List Char
  /-- Code stands before the first comment on its line. -/
  afterCode : Bool
  deriving DecidableEq, Repr

variable (t : SourceText)

def isAfterCode (offset : Nat) : Bool :=
  let lineStart := (t.lineStart? (t.lineAt offset)).getD offset
  !Text.allBlank (t.slice lineStart offset)

def Group.single (c : Comment) : Group :=
  ⟨c.span, c.text.toList, isAfterCode t c.span.start⟩

/-- Only blanks stand between the group and the comment, with at most one line feed among them,
or none if the group comes after code. -/
def Group.accepts (g : Group) (c : Comment) : Bool :=
  let between := t.slice g.span.stop c.span.start
  Text.allBlank between && between.count '\n' ≤ if g.afterCode then 0 else 1

def Group.insert (g : Group) (c : Comment) : Group :=
  { g with span := ⟨g.span.start, c.span.stop⟩, text := g.text ++ c.text.toList }

/-- The groups of the comments that follow an open group. -/
def groupsFrom (g : Group) : List Comment → List Group
  | [] => [g]
  | c :: cs =>
    if g.accepts t c then groupsFrom (g.insert c) cs else g :: groupsFrom (Group.single t c) cs

def groups : List Comment → List Group
  | [] => []
  | c :: cs => groupsFrom t (Group.single t c) cs

/-! ## Separators -/

/-- The pattern stands somewhere in the text. -/
def containsText (pattern : List Char) : List Char → Bool
  | [] => pattern.isEmpty
  | c :: cs => pattern.isPrefixOf (c :: cs) || containsText pattern cs

def separators (o : Options) (comments : List Comment) : List Span :=
  (((groups t comments).filter fun g => containsText o.token.toList g.text).map
    Group.span).mergeSort Span.le

/-! ## Buckets -/

/-- The number of separators that end at or before the offset. -/
def bucketIndex (separators : List Span) (offset : Nat) : Nat :=
  separators.countP (·.stop ≤ offset)

/-- The declarations between the separators, in one bucket more than there are separators. -/
def partition (separators : List Span) (decls : List Decl) : List (List Decl) :=
  (List.range (separators.length + 1)).map fun i =>
    decls.filter fun d => bucketIndex separators d.span.start = i

end LayoutLint.Separator
