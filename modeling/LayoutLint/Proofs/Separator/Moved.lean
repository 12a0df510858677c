import LayoutLint.Proofs.Outline.Moved
import LayoutLint.Rules.Separator.Check

/-! # Separators and buckets of moved declarations

What a bucket may hold does not depend on offsets: the findings about moved declarations are the
moved findings. Where separators stand among declarations depends on the order of the offsets only.
-/

namespace LayoutLint.Separator

variable {f : Nat → Nat}

/-! ## Functions -/

section Functions

variable {testPrefixes : List String}

@[simp] theorem Traits.of_map (decl : FuncDecl) :
    Traits.of testPrefixes (decl.map f) = Traits.of testPrefixes decl := rfl

theorem visibilityFindings_map (fs : List FuncDecl) :
    visibilityFindings testPrefixes (fs.map (FuncDecl.map f)) =
      (visibilityFindings testPrefixes fs).map (Finding.map f) := by
  cases fs with
  | nil => rfl
  | cons first fs =>
    simp only [visibilityFindings, List.map_cons, Traits.of_map]
    rw [← List.map_cons, List.dropWhile_map, List.map_map, List.map_map]
    rfl

theorem firstOfTraits_map (seen : List Traits) (fs : List FuncDecl) :
    firstOfTraits testPrefixes seen (fs.map (FuncDecl.map f)) =
      (firstOfTraits testPrefixes seen fs).map (Prod.map id (FuncDecl.map f)) := by
  induction fs generalizing seen with
  | nil => rfl
  | cons decl fs ih =>
    simp only [firstOfTraits, List.map_cons, Traits.of_map, ih]
    split <;> rfl

theorem testingFindings_map (fs : List FuncDecl) :
    testingFindings testPrefixes (fs.map (FuncDecl.map f)) =
      (testingFindings testPrefixes fs).map (Finding.map f) := by
  rw [testingFindings, testingFindings, firstOfTraits_map]
  cases firstOfTraits testPrefixes [] fs with
  | nil => rfl
  | cons first rest =>
    obtain ⟨traits, decl⟩ := first
    simp only [List.map_cons, Prod.map_apply, List.find?_map, Function.comp_def, Prod.map_fst, id]
    cases rest.find? (·.1.testing != traits.testing) with
    | none => rfl
    | some offender => rfl

theorem receiverFindings_map (fs : List FuncDecl) :
    receiverFindings testPrefixes (fs.map (FuncDecl.map f)) =
      (receiverFindings testPrefixes fs).map (Finding.map f) := by
  have hlabels : receiverLabels testPrefixes (fs.map (FuncDecl.map f)) =
      receiverLabels testPrefixes fs := by
    rw [receiverLabels, List.map_map]
    rfl
  simp only [receiverFindings, hlabels]
  split
  · rfl
  · rw [List.map_map, List.map_map]
    rfl

theorem functionFindings_map (fs : List FuncDecl) :
    functionFindings testPrefixes (fs.map (FuncDecl.map f)) =
      (functionFindings testPrefixes fs).map (Finding.map f) := by
  simp only [functionFindings, visibilityFindings_map, testingFindings_map, receiverFindings_map,
    List.map_append]

theorem isConstructorOf_map (decl : FuncDecl) (name : String) :
    isConstructorOf (decl.map f) name = isConstructorOf decl name := by
  have hresult : declaresResult name (decl.map f) = declaresResult name decl := rfl
  rw [isConstructorOf, isConstructorOf, hresult]
  cases hbody : decl.body with
  | none => simp [FuncDecl.map, hbody]
  | some body => simp [FuncDecl.map, hbody, FuncBody.map]

theorem adjacencyFindings_map (struct : String) (fs : List FuncDecl) :
    adjacencyFindings struct (fs.map (FuncDecl.map f)) =
      (adjacencyFindings struct fs).map (Finding.map f) := by
  rw [adjacencyFindings, adjacencyFindings, List.filterMap_map, List.map_filterMap]
  refine List.filterMap_congr fun decl _ => ?_
  have hreceiver : (decl.map f).receiver = decl.receiver := rfl
  simp only [Function.comp_apply, hreceiver, isConstructorOf_map]
  split <;> split <;> rfl

end Functions

/-! ## Buckets -/

section Buckets

variable {testPrefixes : List String}

theorem classify_map (d : Decl) : classify (d.map f) = classify d := by
  cases d with
  | gen span keyword specs =>
    cases keyword with
    | types => match specs with
      | [] => rfl
      | [_] => rfl
      | _ :: _ :: _ => rfl
    | _ => rfl
  | _ => rfl

theorem classFinding?_map (d : Decl) :
    classFinding? (d.map f) = (classFinding? d).map (Finding.map f) := by
  rw [classFinding?, classFinding?, classify_map]
  split <;> simp [Finding.map]

theorem ofKind_map (bucket : List Decl) (k : Kind) :
    ofKind (bucket.map (Decl.map f)) k = (ofKind bucket k).map (Decl.map f) := by
  simp only [ofKind, List.filter_map, Function.comp_def, classify_map]

theorem kinds_map (bucket : List Decl) : kinds (bucket.map (Decl.map f)) = kinds bucket := by
  simp only [kinds, List.filterMap_map, Function.comp_def, classify_map]

theorem repeated?_map (bucket : List Decl) (k : Kind) :
    repeated? (bucket.map (Decl.map f)) k = (repeated? bucket k).map (Finding.map f) := by
  rw [repeated?, repeated?, ofKind_map]
  match ofKind bucket k with
  | [] => rfl
  | [_] => rfl
  | first :: second :: rest =>
    have hlast : ((second :: rest).map (Decl.map f)).getLast (by simp) =
        ((second :: rest).getLast (by simp)).map f := List.getLast_map _
    simp only [List.map_cons] at hlast ⊢
    simp [hlast, Finding.map, Span.map]

theorem structName?_map (bucket : List Decl) :
    structName? (bucket.map (Decl.map f)) = structName? bucket := by
  rw [structName?, structName?, ofKind_map]
  match ofKind bucket .struct with
  | [] => rfl
  | .gen _ _ [] :: _ => rfl
  | .gen _ _ (_ :: _) :: _ => rfl
  | .func _ :: _ => rfl
  | .unrecognized _ _ :: _ => rfl

theorem kindFindings_map (bucket : List Decl) :
    kindFindings testPrefixes (bucket.map (Decl.map f)) =
      (kindFindings testPrefixes bucket).map (Finding.map f) := by
  have hrepeated : (repeated? (bucket.map (Decl.map f)) .interface).or
        (repeated? (bucket.map (Decl.map f)) .struct) =
      ((repeated? bucket .interface).or (repeated? bucket .struct)).map (Finding.map f) := by
    rw [repeated?_map, repeated?_map, Option.map_or]
  have hforbidden : ∀ message,
      (((bucket.map (Decl.map f)).filter fun d => (classify d).kind?.isSome).map fun d =>
        (⟨d.span, message, none⟩ : Finding)) =
      ((bucket.filter fun d => (classify d).kind?.isSome).map fun d =>
        (⟨d.span, message, none⟩ : Finding)).map (Finding.map f) := by
    intro message
    simp only [List.filter_map, List.map_map, Function.comp_def, classify_map, Decl.span_map,
      Finding.map]
  simp only [kindFindings, hrepeated, kinds_map, Decl.filterMap_func?_map, functionFindings_map,
    testingFindings_map, structName?_map, hforbidden]
  cases (repeated? bucket .interface).or (repeated? bucket .struct) with
  | some finding => rfl
  | none =>
    simp only [Option.map_none]
    split
    · rfl
    split
    · rfl
    split
    · rfl
    · rw [List.map_append]
      cases structName? bucket with
      | none => rfl
      | some struct => simp [adjacencyFindings_map]

theorem bucketFindings_map (bucket : List Decl) :
    bucketFindings testPrefixes (bucket.map (Decl.map f)) =
      (bucketFindings testPrefixes bucket).map (Finding.map f) := by
  rw [bucketFindings, kindFindings_map, List.filterMap_map, bucketFindings, List.map_append,
    List.map_filterMap]
  congr 1
  exact List.filterMap_congr fun d _ => classFinding?_map d

end Buckets

/-! ## Separators among declarations -/

def Layout.map (f : Nat → Nat) (l : Layout) : Layout where
  package := l.package.map f
  separators := l.separators.map (Span.map f)
  imports := l.imports.map (Span.map f)
  decls := l.decls.map (Decl.map f)

section Order

variable (hf : ∀ a b, f a ≤ f b ↔ a ≤ b)
include hf

theorem trailingFindings_map (l : Layout) :
    trailingFindings (l.map f) = (trailingFindings l).map (Finding.map f) := by
  simp only [trailingFindings, Layout.map, List.getLast?_map]
  cases l.separators.getLast? with
  | none => rfl
  | some s =>
    cases l.decls.getLast? with
    | none => rfl
    | some d =>
      simp only [Option.map_some, Decl.span_map, Span.map, map_lt_iff hf]
      split <;> rfl

theorem leadingFindings_map (l : Layout) :
    leadingFindings (l.map f) = (leadingFindings l).map (Finding.map f) := by
  simp only [leadingFindings, Layout.map, List.getLast?_map, List.head?_map]
  cases l.separators.head? with
  | none => rfl
  | some s =>
    cases l.imports.getLast? with
    | none =>
      simp only [Option.map_some, Option.map_none, Span.map, hf]
      split <;> rfl
    | some i =>
      simp only [Option.map_some, Span.map, map_lt_iff hf]
      split <;> rfl

theorem emptySectionFindings_map (l : Layout) :
    emptySectionFindings (l.map f) = (emptySectionFindings l).map (Finding.map f) := by
  have hdecl : ∀ current next : Span,
      hasDeclBetween (l.decls.map (Decl.map f)) (current.map f) (next.map f) =
        hasDeclBetween l.decls current next := by
    intro current next
    simp only [hasDeclBetween, List.any_map, Function.comp_def, Decl.span_map, Span.map,
      map_lt_iff hf]
  simp only [emptySectionFindings, Layout.map, ← List.map_tail, List.zip_map, List.filterMap_map,
    List.map_filterMap]
  refine List.filterMap_congr fun pair _ => ?_
  obtain ⟨current, next⟩ := pair
  simp only [Function.comp_apply, Prod.map_apply, emptySection?, hdecl]
  split <;> rfl

theorem partition_map (separators : List Span) (decls : List Decl) :
    partition (separators.map (Span.map f)) (decls.map (Decl.map f)) =
      (partition separators decls).map (List.map (Decl.map f)) := by
  have hindex : ∀ offset, bucketIndex (separators.map (Span.map f)) (f offset) =
      bucketIndex separators offset := by
    intro offset
    simp only [bucketIndex, List.countP_map, Function.comp_def, Span.map, hf]
  simp only [partition, List.length_map, List.map_map, List.filter_map, Function.comp_def,
    Decl.span_map, Span.map, hindex]

end Order

end LayoutLint.Separator
