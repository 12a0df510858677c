import LayoutLint.Finding
import LayoutLint.Rules.Separator.Constructor
import LayoutLint.Rules.Separator.Groups
import LayoutLint.Rules.Separator.Kind

/-! # Buckets

A bucket holds one logical entity: a structure with its constructors and methods, one
interface, functions of one receiver, or declarations of one other kind.
-/

namespace LayoutLint.Separator

/-! ## Messages -/

def unknownDeclaration : String := "Unknown declaration type found in bucket, might be a bug"

def multiSpecType : String := "Type declaration should have exactly one spec"

def singleStructOrInterface : String :=
  "Only one interface or struct declaration is allowed between separators"

def forbiddenDeclarations (kinds : List Kind) : String :=
  "Forbidden declarations within the same group: " ++ ", ".intercalate (kinds.map Kind.name)

def mixedVisibility : String :=
  "Mixing public and private methods in the same group is not allowed"

def mixedTesting : String := "Mixing testing and code methods in the same group is not allowed"

def mixedReceivers (labels : List String) : String :=
  "Mixing methods with different receivers in the same group is not allowed: " ++
    ", ".intercalate (labels.map fun l => s!"'{l}'")

def notConstructor (function struct : String) : String :=
  s!"Function '{function}' which is not a constructor for struct '{struct}' is not allowed in " ++
    s!"the same group as struct '{struct}'"

def foreignMethod (receiver struct : String) : String :=
  s!"Method with receiver '{receiver}' is not allowed in the same group as struct '{struct}'"

/-! ## Functions -/

variable (testPrefixes : List String)

/-- The functions from the first on whose visibility is not that of the first. -/
def visibilityFindings (fs : List FuncDecl) : List Finding :=
  match fs with
  | [] => []
  | first :: _ =>
    let exported (f : FuncDecl) : Bool := (Traits.of testPrefixes f).exported
    (fs.dropWhile fun f => exported f == exported first).map fun f =>
      ⟨f.span, mixedVisibility, none⟩

/-- The first function with each combination of traits, in order of appearance. -/
def firstOfTraits (seen : List Traits) : List FuncDecl → List (Traits × FuncDecl)
  | [] => []
  | f :: fs =>
    let traits := Traits.of testPrefixes f
    if seen.contains traits then firstOfTraits seen fs
    else (traits, f) :: firstOfTraits (traits :: seen) fs

/-- The first function and the first that differs from it in being a test. -/
def testingFindings (fs : List FuncDecl) : List Finding :=
  match firstOfTraits testPrefixes [] fs with
  | [] => []
  | (first, f) :: rest =>
    match rest.find? (·.1.testing != first.testing) with
    | none => []
    | some (_, offender) => [⟨f.span, mixedTesting, none⟩, ⟨offender.span, mixedTesting, none⟩]

/-- The labels of the receivers, each once, in order of appearance. -/
def receiverLabels (fs : List FuncDecl) : List String :=
  (fs.map fun f => (Traits.of testPrefixes f).label).foldl
    (fun seen l => if seen.contains l then seen else seen ++ [l]) []

def receiverFindings (fs : List FuncDecl) : List Finding :=
  let labels := receiverLabels testPrefixes fs
  if labels.length < 2 then []
  else fs.map fun f => ⟨f.span, mixedReceivers labels, none⟩

def functionFindings (fs : List FuncDecl) : List Finding :=
  visibilityFindings testPrefixes fs ++ testingFindings testPrefixes fs ++
    receiverFindings testPrefixes fs

/-- Functions in one bucket with a structure construct it or are methods of it. -/
def adjacencyFindings (struct : String) (fs : List FuncDecl) : List Finding :=
  fs.filterMap fun f =>
    match f.receiver with
    | none =>
      if isConstructorOf f struct then none
      else some ⟨f.span, notConstructor f.name struct, none⟩
    | some receiver =>
      if receiver = struct then none else some ⟨f.span, foreignMethod receiver struct, none⟩

/-! ## Buckets -/

/-- The finding about a declaration that has no kind, or too many names. -/
def classFinding? (d : Decl) : Option Finding :=
  match classify d with
  | .unknown => some ⟨d.span, unknownDeclaration, none⟩
  | .multiSpecType => some ⟨d.span, multiSpecType, none⟩
  | .ofKind _ => none

def ofKind (bucket : List Decl) (k : Kind) : List Decl :=
  bucket.filter fun d => (classify d).kind? = some k

/-- The kinds in the bucket, each once, in order of appearance. -/
def kinds (bucket : List Decl) : List Kind :=
  (bucket.filterMap fun d => (classify d).kind?).foldl
    (fun seen k => if seen.contains k then seen else seen ++ [k]) []

/-- The finding about several declarations of a kind of which a bucket holds one. -/
def repeated? (bucket : List Decl) (k : Kind) : Option Finding :=
  match ofKind bucket k with
  | first :: second :: rest =>
    let last := (second :: rest).getLast (by simp)
    some ⟨⟨first.span.start, last.span.stop⟩, singleStructOrInterface, none⟩
  | _ => none

def structName? (bucket : List Decl) : Option String :=
  match ofKind bucket .struct with
  | .gen _ _ (spec :: _) :: _ => some spec.name
  | _ => none

/-- The findings about the kinds that stand together in a bucket. -/
def kindFindings (bucket : List Decl) : List Finding :=
  let kinds := kinds bucket
  let fs := bucket.filterMap Decl.func?
  match (repeated? bucket .interface).or (repeated? bucket .struct) with
  | some finding => [finding]
  | none =>
    if kinds.length = 1 && kinds.all Kind.standsAlone then []
    else if kinds = [.func] then functionFindings testPrefixes fs
    else if kinds.length > 2 || !kinds.all (!·.standsAlone) then
      (bucket.filter fun d => (classify d).kind?.isSome).map fun d =>
        ⟨d.span, forbiddenDeclarations kinds, none⟩
    else
      testingFindings testPrefixes fs ++
        (structName? bucket).elim [] fun struct => adjacencyFindings struct fs

def bucketFindings (bucket : List Decl) : List Finding :=
  bucket.filterMap classFinding? ++ kindFindings testPrefixes bucket

end LayoutLint.Separator
