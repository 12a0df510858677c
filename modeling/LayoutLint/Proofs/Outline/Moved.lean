import LayoutLint.Finding
import LayoutLint.Proofs.Outline.Spans
import Mathlib.Data.List.Basic

/-! # Moved outlines

An outline with each of its offsets moved to another place. All else stays.
-/

namespace LayoutLint

variable (f : Nat → Nat)

def Span.map (s : Span) : Span := ⟨f s.start, f s.stop⟩

def Comment.map (c : Comment) : Comment := { c with span := c.span.map f }

def Block.map (b : Block) : Block := { b with lbrace := f b.lbrace, rbrace := f b.rbrace }

def FuncBody.map (b : FuncBody) : FuncBody :=
  { b with lbrace := f b.lbrace, rbrace := f b.rbrace, firstStmt := b.firstStmt.map f }

def FuncDecl.map (d : FuncDecl) : FuncDecl :=
  { d with span := d.span.map f, params := d.params.map f, body := d.body.map (FuncBody.map f) }

def Decl.map : Decl → Decl
  | gen span keyword specs => gen (span.map f) keyword specs
  | func decl => func (decl.map f)
  | unrecognized span nodeKind => unrecognized (span.map f) nodeKind

def Outline.map (o : Outline) : Outline :=
  { o with
    package := o.package.map f
    imports := o.imports.map (Span.map f)
    decls := o.decls.map (Decl.map f)
    comments := o.comments.map (Comment.map f)
    blocks := o.blocks.map (Block.map f)
    defers := o.defers.map (Span.map f) }

def Finding.map (x : Finding) : Finding := { x with span := x.span.map f }

@[simp] theorem Decl.span_map (d : Decl) : (d.map f).span = d.span.map f := by
  cases d <;> rfl

theorem Decl.func?_map (d : Decl) : (d.map f).func? = d.func?.map (FuncDecl.map f) := by
  cases d <;> rfl

theorem Decl.filterMap_func?_map (ds : List Decl) :
    (ds.map (Decl.map f)).filterMap Decl.func? =
      (ds.filterMap Decl.func?).map (FuncDecl.map f) := by
  rw [List.filterMap_map, List.map_filterMap]
  exact List.filterMap_congr fun d _ => d.func?_map f

theorem Outline.functions_map (o : Outline) :
    (o.map f).functions = o.functions.map (FuncDecl.map f) := Decl.filterMap_func?_map f o.decls

section Order

variable {f} (hf : ∀ a b, f a ≤ f b ↔ a ≤ b)
include hf

theorem map_lt_iff (a b : Nat) : f a < f b ↔ a < b := by
  rw [← Nat.not_le, hf, Nat.not_le]

theorem map_eq_iff (a b : Nat) : f a = f b ↔ a = b := by
  rw [Nat.le_antisymm_iff, hf, hf, ← Nat.le_antisymm_iff]

theorem Span.le_map (s t : Span) : (s.map f).le (t.map f) = s.le t := by
  have hstart : (f s.start == f t.start) = (s.start == t.start) := by
    rw [Bool.eq_iff_iff, beq_iff_eq, beq_iff_eq, map_eq_iff hf]
  simp only [le, map, map_lt_iff hf, hf, hstart]

theorem Span.isEmpty_map (s : Span) : (s.map f).isEmpty = s.isEmpty := by
  have hle := hf s.stop s.start
  rw [isEmpty, isEmpty, Bool.eq_iff_iff, beq_iff_eq, beq_iff_eq]
  simp only [length, map]
  omega

theorem mergeSort_map_span {α : Type} {move : α → α} {span : α → Span}
    (hspan : ∀ a, span (move a) = (span a).map f) (xs : List α) :
    (xs.map move).mergeSort (fun a b => (span a).le (span b)) =
      (xs.mergeSort fun a b => (span a).le (span b)).map move := by
  refine (List.map_mergeSort fun a _ b _ => ?_).symm
  rw [hspan, hspan, Span.le_map hf]

theorem Span.mergeSort_map (ss : List Span) :
    (ss.map (Span.map f)).mergeSort Span.le = (ss.mergeSort Span.le).map (Span.map f) :=
  (List.map_mergeSort fun s _ t _ => (s.le_map hf t).symm).symm

end Order

end LayoutLint
