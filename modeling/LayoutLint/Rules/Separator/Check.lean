import LayoutLint.Rules.Separator.Bucket

/-! # Separators and their buckets

Where separators may stand, and what the buckets between them may hold.
-/

namespace LayoutLint.Separator

/-! ## Messages -/

def trailing : String := "Separators at the end of the file are not allowed"

def beforePackage : String := "Separator is not allowed before package declaration"

def beforeImports : String := "Separator is not allowed before imports"

def multiline : String := "Separator is not allowed a part of multiline comment"

def overCode : String := "Separator is not allowed over code"

def spacing : String := "Each Separator should be surrounded by exactly one empty line"

def emptySection : String :=
  "Empty section detected: no declarations found between consecutive separators"

def missingAfterPackage : String :=
  "Missing Separator after package declaration when no imports present"

/-! ## Placement -/

/-- What the checks look at, in the order of the text. -/
structure Layout where
  package : Span
  separators : List Span
  imports : List Span
  decls : List Decl

variable (t : SourceText)

def Layout.of (options : Options) (o : Outline) : Layout where
  package := o.package
  separators := Separator.separators t options o.comments
  imports := o.imports.mergeSort Span.le
  decls := o.decls.mergeSort fun a b => a.span.le b.span

/-- The last byte of a span, which has at least one. -/
def lastByte (s : Span) : Nat := max s.stop (s.start + 1) - 1

def firstLine (s : Span) : Nat := t.lineAt s.start

def lastLine (s : Span) : Nat := t.lineAt (lastByte s)

/-- The last separator starts after the last declaration. -/
def trailingFindings (l : Layout) : List Finding :=
  match l.separators.getLast?, l.decls.getLast? with
  | some s, some d => if d.span.stop < s.start then [⟨s, trailing, none⟩] else []
  | _, _ => []

/-- The first separator comes before the package clause of a file without imports, or before
the end of the last import. -/
def leadingFindings (l : Layout) : List Finding :=
  match l.separators.head?, l.imports.getLast? with
  | some s, none => if s.stop ≤ l.package.start then [⟨s, beforePackage, none⟩] else []
  | some s, some i => if s.start < i.stop then [⟨s, beforeImports, none⟩] else []
  | none, _ => []

def isMultiline (s : Span) : Bool := firstLine t s != lastLine t s

/-- The two spans share a line. -/
def shareLine (s d : Span) : Bool :=
  firstLine t s ≤ lastLine t d && firstLine t d ≤ lastLine t s

/-- One blank line stands on each side of the lines `first` to `last`. At the end of the text
none need follow, and at its beginning none need come before. -/
def spacedBy (first last before after : Nat) : Bool :=
  (before == 1 && after == 1) ||
  (last == t.lastLine && before == 1 && after == 0) ||
  (first == 0 && before == 0 && after == 1)

def isSpaced (s : Span) : Bool :=
  spacedBy t (firstLine t s) (lastLine t s) (t.blankLinesBefore (firstLine t s))
    (t.blankLinesAfter (lastLine t s))

/-- Some declaration lies between the two separators. -/
def hasDeclBetween (decls : List Decl) (current next : Span) : Bool :=
  decls.any fun d => current.stop < d.span.start && d.span.stop < next.start

def emptyBetween (current next : Span) : Finding :=
  ⟨⟨current.stop, next.start⟩, emptySection, none⟩

def emptySection? (decls : List Decl) (current next : Span) : Option Finding :=
  if hasDeclBetween decls current next then none else some (emptyBetween current next)

theorem eq_of_emptySection?_eq_some {decls : List Decl} {current next : Span} {f : Finding}
    (h : emptySection? decls current next = some f) : f = emptyBetween current next := by
  rw [emptySection?] at h
  split at h
  · cases h
  · exact (Option.some.inj h).symm

def emptySectionFindings (l : Layout) : List Finding :=
  (l.separators.zip l.separators.tail).filterMap fun p => emptySection? l.decls p.1 p.2

def missingAt (package : Span) : Finding :=
  ⟨⟨package.start, package.start⟩, missingAfterPackage, none⟩

/-- Without imports the first separator stands two lines below the package clause. -/
def packageFindings (l : Layout) : List Finding :=
  let placed := l.separators.head?.any fun s => firstLine t s == t.lineAt l.package.start + 2
  if l.imports.isEmpty && !placed then [missingAt l.package] else []

def layoutFindings (testPrefixes : List String) (l : Layout) : List Finding :=
  let about (bad : Span → Bool) (message : String) : List Finding :=
    (l.separators.filter bad).map fun s => ⟨s, message, none⟩
  trailingFindings l ++ leadingFindings l ++
    about (isMultiline t) multiline ++
    about (fun s => l.decls.any fun d => shareLine t s d.span) overCode ++
    about (!isSpaced t ·) spacing ++
    emptySectionFindings l ++ packageFindings t l ++
    (partition l.separators l.decls).flatMap fun bucket =>
      if bucket.isEmpty then [] else bucketFindings testPrefixes bucket

def findings (options : Options) (o : Outline) : List Finding :=
  layoutFindings t options.testPrefixes (Layout.of t options o)

end LayoutLint.Separator
