import LayoutLint.Outline

/-! # The spans of an outline -/

namespace LayoutLint

def Decl.spans : Decl → List Span
  | gen span _ _ => [span]
  | func decl => [decl.span, decl.params]
  | unrecognized span _ => [span]

theorem Decl.span_mem_spans (d : Decl) : d.span ∈ d.spans := by
  cases d <;> exact List.mem_cons_self

theorem Decl.mem_filterMap_func?_iff {ds : List Decl} {f : FuncDecl} :
    f ∈ ds.filterMap func? ↔ .func f ∈ ds := by
  rw [List.mem_filterMap]
  constructor
  · rintro ⟨d, hd, hf⟩
    cases d <;> simp_all [func?]
  · exact fun h => ⟨.func f, h, rfl⟩

namespace Outline

variable {o : Outline} {s : Span} {d : Decl}

def spans (o : Outline) : List Span :=
  o.package :: (o.imports ++ o.decls.flatMap Decl.spans ++ o.comments.map Comment.span ++ o.defers)

theorem mem_spans_iff :
    s ∈ o.spans ↔ s = o.package ∨ s ∈ o.imports ∨ (∃ d ∈ o.decls, s ∈ d.spans) ∨
      (∃ c ∈ o.comments, c.span = s) ∨ s ∈ o.defers := by
  simp only [spans, List.mem_cons, List.mem_append, List.mem_flatMap, List.mem_map, or_assoc]

theorem mem_functions_iff {f : FuncDecl} : f ∈ o.functions ↔ .func f ∈ o.decls :=
  Decl.mem_filterMap_func?_iff

end Outline

end LayoutLint
