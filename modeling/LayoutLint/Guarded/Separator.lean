import LayoutLint.Guarded.Basic
import LayoutLint.Rules.Separator.Check

/-! # Separators, step by step

Groups of comments and their separators, the lines of a span, the blank lines around it, and the
buckets between the separators.
-/

namespace LayoutLint.Guarded.Separator

open LayoutLint.Separator

variable (t : SourceText)

/-! ## Groups -/

def token (options : Options) : Run String :=
  if options.width < capacity then .ok options.token else .error .capacity

def isAfterCode (offset : Nat) : Run Bool := do
  let lineStart := (t.lineStart? (← lineOf t offset)).getD offset
  return !Text.allBlank (t.slice lineStart offset)

def single (c : Comment) : Run Group := do
  return ⟨c.span, c.text.toList, ← isAfterCode t c.span.start⟩

def accepts (g : Group) (c : Comment) : Run Bool := do
  let between := t.slice g.span.stop c.span.start
  let breaks ← tally (between.filter (· == '\n'))
  return Text.allBlank between && breaks ≤ if g.afterCode then 0 else 1

def groupsFrom (g : Group) : List Comment → Run (List Group)
  | [] => return [g]
  | c :: cs => do
    if ← accepts t g c then groupsFrom (g.insert c) cs
    else return g :: (← groupsFrom (← single t c) cs)

def groups : List Comment → Run (List Group)
  | [] => return []
  | c :: cs => do groupsFrom t (← single t c) cs

def separators (options : Options) (comments : List Comment) : Run (List Span) := do
  let token ← token options
  let groups ← groups t comments
  return ((groups.filter fun g => containsText token.toList g.text).map Group.span).mergeSort
    Span.le

/-! ## Lines -/

/-- The first and the last line of a span. -/
def lines (s : Span) : Run (Nat × Nat) := do
  let last ← sub (max s.stop (← add s.start 1)) 1
  return (← lineOf t s.start, ← lineOf t last)

def isMultiline (s : Span) : Run Bool := do
  let (first, last) ← lines t s
  return first != last

def isOverCode (decls : List Decl) (s : Span) : Run Bool := do
  let (first, last) ← lines t s
  any (fun d => do
    let (declFirst, declLast) ← lines t d.span
    return first ≤ declLast && declFirst ≤ last) decls

def isSpaced (s : Span) : Run Bool := do
  let (first, last) ← lines t s
  return spacedBy t first last (← blankLinesBefore t first) (← blankLinesAfter t last)

/-! ## Sections -/

def windows {α : Type} : List α → List (List α)
  | x :: y :: rest => [x, y] :: windows (y :: rest)
  | _ => []

def emptySectionFindings (l : Layout) : Run (List Finding) := do
  let found ← (windows l.separators).mapM fun pair => do
    return emptySection? l.decls (← get pair 0) (← get pair 1)
  return found.filterMap id

def packageFindings (l : Layout) : Run (List Finding) :=
  if l.imports.isEmpty then do
    let expected ← add (← lineOf t l.package.start) 2
    let placed ← match l.separators.head? with
      | none => pure false
      | some s => do pure ((← lineOf t s.start) == expected)
    if placed then return [] else return [missingAt l.package]
  else return []

/-! ## Buckets -/

def push (buckets : List (List Decl)) (i : Nat) (d : Decl) : Run (List (List Decl)) :=
  if i < buckets.length then .ok (buckets.modify i (· ++ [d])) else .error .outOfRange

/-- Puts a declaration into the bucket after the separators that end before it. -/
def place (separators : List Span) (buckets : List (List Decl)) (d : Decl) :
    Run (List (List Decl)) := do
  push buckets (← tally (separators.filter (·.stop ≤ d.span.start))) d

def partition (separators : List Span) (decls : List Decl) : Run (List (List Decl)) := do
  let n ← add separators.length 1
  decls.foldlM (place separators) (List.replicate n [])

variable (testPrefixes : List String)

def fromFirst {α : Type} (p : α → Bool) (xs : List α) : Run (List α) :=
  match xs.findIdx? p with
  | none => return []
  | some i => dropFirst xs i

def visibilityFindings (fs : List FuncDecl) : Run (List Finding) :=
  match fs with
  | [] => return []
  | first :: _ => do
    let exported (f : FuncDecl) : Bool := (Traits.of testPrefixes f).exported
    let mixed ← fromFirst (fun f => !(exported f == exported first)) fs
    return mixed.map fun f => ⟨f.span, mixedVisibility, none⟩

/-- The findings of a bucket, if it holds anything. Only the search for mixed visibility, in a
bucket of functions, has a step at which it could stop. -/
def bucketFindings (bucket : List Decl) : Run (List Finding) :=
  if bucket.isEmpty then return []
  else if kinds bucket = [.func] then do
    let fs := bucket.filterMap Decl.func?
    return bucket.filterMap classFinding? ++ (← visibilityFindings testPrefixes fs) ++
      testingFindings testPrefixes fs ++ receiverFindings testPrefixes fs
  else return LayoutLint.Separator.bucketFindings testPrefixes bucket

/-! ## The check -/

/-- A finding for each separator that is bad. -/
def about (l : Layout) (bad : Span → Run Bool) (message : String) : Run (List Finding) := do
  return (← filter bad l.separators).map fun s => ⟨s, message, none⟩

def layoutFindings (l : Layout) : Run (List Finding) := do
  let wide ← about l (isMultiline t) multiline
  let shared ← about l (isOverCode t l.decls) overCode
  let misplaced ← about l (fun s => do return !(← isSpaced t s)) spacing
  let empty ← emptySectionFindings l
  let package ← packageFindings t l
  let buckets ← partition l.separators l.decls
  let inside ← buckets.mapM (bucketFindings testPrefixes)
  return trailingFindings l ++ leadingFindings l ++ wide ++ shared ++ misplaced ++ empty ++
    package ++ inside.flatten

def findings (options : Options) (o : Outline) : Run (List Finding) := do
  let separators ← separators t options o.comments
  layoutFindings t options.testPrefixes
    { package := o.package
      separators
      imports := o.imports.mergeSort Span.le
      decls := o.decls.mergeSort fun a b => a.span.le b.span }

end LayoutLint.Guarded.Separator
