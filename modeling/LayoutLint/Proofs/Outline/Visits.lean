import LayoutLint.Outline.OfTree
import LayoutLint.Proofs.Source.Layout

/-! # Visits

The stack visits each named tree at every depth once. Of two trees that are visited, in the order
of the text, the second stands in the first or after it.
-/

namespace LayoutLint.Outline

open Source

/-! ## The order of the text -/

mutual

/-- The tree and the named trees in it, each with whether it is the body of its function. -/
def visits (isBody : Bool) : Tree → List (Tree × Bool)
  | .leaf field kind token => [(.leaf field kind token, isBody)]
  | .comment c => [(.comment c, isBody)]
  | .missing field kind text offset => [(.missing field kind text offset, isBody)]
  | .node field kind children =>
    (.node field kind children, isBody) :: visitsOf (isFunctionLike (.node field kind [])) children

def visitsOf (hasBody : Bool) : List Tree → List (Tree × Bool)
  | [] => []
  | t :: ts =>
    let isBody := hasBody && t.field? = some .body
    (if t.isNamed then visits isBody t else []) ++ visitsOf (hasBody && !isBody) ts

end

def visitAll (xs : List (Tree × Bool)) : List (Tree × Bool) := xs.flatMap fun x => visits x.2 x.1

theorem visitsOf_eq (hasBody : Bool) (ts : List Tree) :
    visitsOf hasBody ts = visitAll ((markBody hasBody ts).filter (·.1.isNamed)) := by
  induction ts generalizing hasBody with
  | nil => rfl
  | cons t ts ih =>
    rw [visitsOf, ih, markBody, List.filter_cons]
    split <;> rfl

theorem visits_eq (isBody : Bool) (t : Tree) :
    visits isBody t = (t, isBody) :: visitAll (childrenToVisit t) := by
  cases t with
  | leaf => rfl
  | comment => rfl
  | missing => rfl
  | node field kind children =>
    rw [visits, visitsOf_eq]
    rfl

theorem visitAll_cons_perm (t : Tree) (isBody : Bool) (stack : List (Tree × Bool)) :
    (visitAll ((t, isBody) :: stack)).Perm
      ((t, isBody) :: visitAll ((childrenToVisit t).reverse ++ stack)) := by
  have hstack : visitAll ((childrenToVisit t).reverse ++ stack) =
      visitAll (childrenToVisit t).reverse ++ visitAll stack := List.flatMap_append
  have hvisits : visitAll ((t, isBody) :: stack) =
      (t, isBody) :: (visitAll (childrenToVisit t) ++ visitAll stack) := by
    rw [visitAll, List.flatMap_cons, visits_eq]
    rfl
  rw [hvisits, hstack]
  exact (((List.reverse_perm _).symm.flatMap_right _).append_right _).cons _

theorem mem_visitAll {xs : List (Tree × Bool)} {y : Tree × Bool} :
    y ∈ visitAll xs ↔ ∃ x ∈ xs, y ∈ visits x.2 x.1 := List.mem_flatMap

theorem mem_childrenToVisit {t : Tree} {x : Tree × Bool} :
    x ∈ childrenToVisit t ↔
      x.1 ∈ t.namedChildren ∧ x ∈ markBody (isFunctionLike t) t.children := by
  rw [childrenToVisit, List.mem_filter, and_comm, Tree.namedChildren, List.mem_filter]
  constructor
  · rintro ⟨hnamed, hx⟩
    refine ⟨⟨?_, hnamed⟩, hx⟩
    rw [← map_fst_markBody (isFunctionLike t) t.children]
    exact List.mem_map_of_mem hx
  · rintro ⟨⟨-, hnamed⟩, hx⟩
    exact ⟨hnamed, hx⟩

theorem exists_mem_childrenToVisit {t c : Tree} (h : c ∈ t.namedChildren) :
    ∃ isBody, (c, isBody) ∈ childrenToVisit t := by
  rw [← map_fst_childrenToVisit, List.mem_map] at h
  obtain ⟨x, hx, rfl⟩ := h
  exact ⟨x.2, hx⟩

theorem mem_markBody_true_iff {hasBody : Bool} {c : Tree} {cs : List Tree} :
    (c, true) ∈ markBody hasBody cs ↔
      hasBody = true ∧ cs.find? (·.field? = some .body) = some c := by
  induction cs generalizing hasBody with
  | nil => simp [markBody]
  | cons d cs ih =>
    rw [markBody, List.mem_cons, ih]
    by_cases hd : d.field? = some .body
    · cases hasBody <;> simp [hd, eq_comm]
    · simp [hd]

/-- The second tree stands in a child of the first, or after the first. -/
def Comes (t u : Tree) : Prop :=
  (∃ c ∈ t.namedChildren, u.Within c) ∨ t.span.Precedes u.span

section

variable {cs : List Char}

theorem within_of_mem_visits {t : Tree} (h : t.Shaped) {isBody : Bool} {x : Tree × Bool}
    (hx : x ∈ visits isBody t) : x.1.Within t := by
  refine Tree.Shaped.induction_children (P := fun t => ∀ b, x ∈ visits b t → x.1.Within t)
    (fun t _ ih b hx => ?_) h isBody hx
  rw [visits_eq] at hx
  rcases List.mem_cons.mp hx with rfl | hx
  · exact .self t
  · obtain ⟨y, hy, hx⟩ := mem_visitAll.mp hx
    have hmem := (Tree.mem_namedChildren.mp (mem_childrenToVisit.mp hy).1).1
    exact .child hmem (ih y.1 hmem y.2 hx)

theorem pairwise_visitAll_of {xs : List (Tree × Bool)} (hlaid : Tree.Laid cs (xs.map Prod.fst))
    (hxs : ∀ x ∈ xs, (visits x.2 x.1).Pairwise fun y z => Comes y.1 z.1) :
    (visitAll xs).Pairwise fun y z => Comes y.1 z.1 := by
  have hmem : ∀ {x}, x ∈ xs → Tree.Laid cs [x.1] := fun hx =>
    hlaid.of_mem (List.mem_map_of_mem hx)
  refine List.pairwise_flatMap.mpr ⟨hxs, ?_⟩
  refine (List.pairwise_map.mp hlaid.pairwise).imp_of_mem fun hx hx' hprecedes y hy z hz => ?_
  have hywithin := within_of_mem_visits (hmem hx).shaped_self hy
  have hzwithin := within_of_mem_visits (hmem hx').shaped_self hz
  have hyspan := hywithin.span_within (hmem hx)
  have hzspan := hzwithin.span_within (hmem hx')
  exact .inr (Nat.le_trans hyspan.2 (Nat.le_trans hprecedes hzspan.1))

theorem laid_childrenToVisit {t : Tree} (h : Tree.Laid cs t.children) :
    Tree.Laid cs ((childrenToVisit t).map Prod.fst) := by
  rw [map_fst_childrenToVisit]
  exact h.sublist List.filter_sublist

theorem pairwise_visits {t : Tree} (h : Tree.Laid cs [t]) (isBody : Bool) :
    (visits isBody t).Pairwise fun y z => Comes y.1 z.1 := by
  refine Tree.Shaped.induction_children
    (P := fun t => Tree.Laid cs [t] → ∀ b, (visits b t).Pairwise fun y z => Comes y.1 z.1)
    (fun t _ ih h b => ?_) h.shaped_self h isBody
  have hchild : ∀ {x}, x ∈ childrenToVisit t → x.1 ∈ t.children := fun hx =>
    (Tree.mem_namedChildren.mp (mem_childrenToVisit.mp hx).1).1
  rw [visits_eq]
  refine List.pairwise_cons.mpr ⟨fun y hy => ?_, ?_⟩
  · obtain ⟨x, hx, hy⟩ := mem_visitAll.mp hy
    have hx' := (h.children.of_mem (hchild hx)).shaped_self
    exact .inl ⟨x.1, (mem_childrenToVisit.mp hx).1, within_of_mem_visits hx' hy⟩
  · exact pairwise_visitAll_of (laid_childrenToVisit h.children) fun x hx =>
      ih x.1 (hchild hx) (h.children.of_mem (hchild hx)) x.2

theorem pairwise_visitAll {xs : List (Tree × Bool)} (h : Tree.Laid cs (xs.map Prod.fst)) :
    (visitAll xs).Pairwise fun y z => Comes y.1 z.1 :=
  pairwise_visitAll_of h fun x hx => pairwise_visits (h.of_mem (List.mem_map_of_mem hx)) x.2

theorem laid_of_mem_visitAll {xs : List (Tree × Bool)} (h : Tree.Laid cs (xs.map Prod.fst))
    {y : Tree × Bool} (hy : y ∈ visitAll xs) : Tree.Laid cs [y.1] := by
  obtain ⟨x, hx, hy⟩ := mem_visitAll.mp hy
  have hlaid := h.of_mem (List.mem_map_of_mem hx)
  exact (within_of_mem_visits hlaid.shaped_self hy).laid hlaid

end

/-! ## The stack -/

def visited (root : Tree) : List (Tree × Bool) := visitAll (childrenToVisit root)

/-- The comments, the blocks or the `defer` statements of what is nested. -/
structure Part (α : Type) where
  of : Nested → List α
  of_append : ∀ a b, of (a ++ b) = of a ++ of b
  of_empty : of {} = []
  /-- One visit finds no more than one. -/
  length_le_one : ∀ t isBody, (of (nestedHere t isBody)).length ≤ 1

section

variable {α : Type} (part : Part α)

def Part.here (x : Tree × Bool) : List α := part.of (nestedHere x.1 x.2)

/-- The stack finds what stands at each visit, in another order. -/
theorem collect_perm (found : Nested) (stack : List (Tree × Bool)) :
    (part.of (collect found stack)).Perm
      ((visitAll stack).flatMap part.here ++ part.of found) := by
  fun_induction collect found stack with
  | case1 => exact .refl _
  | case2 found t isBody stack ih =>
    refine ih.trans ?_
    have hvisits := (visitAll_cons_perm t isBody stack).flatMap_right part.here
    rw [List.flatMap_cons] at hvisits
    rw [part.of_append, ← List.append_assoc]
    refine List.Perm.append_right _ ?_
    exact List.perm_append_comm.trans hvisits.symm

variable {root : Tree} (hroot : root.kind = .sourceFile)
include hroot

omit part in
theorem nestedHere_of_sourceFile : nestedHere root false = {} := by
  unfold nestedHere
  split <;> simp_all [Tree.kind]

theorem nested_perm : (part.of (nested root)).Perm ((visited root).flatMap part.here) := by
  have hnone := nestedHere_of_sourceFile hroot
  have hperm := collect_perm part {} [(root, false)]
  have hvisits : visitAll [(root, false)] = (root, false) :: visited root := by
    rw [visitAll, List.flatMap_cons, visits_eq, List.flatMap_nil, List.append_nil, visited]
  rwa [hvisits, List.flatMap_cons, Part.here, hnone, part.of_empty, List.nil_append,
    List.append_nil] at hperm

theorem mem_nested_iff {a : α} :
    a ∈ part.of (nested root) ↔ ∃ x ∈ visited root, a ∈ part.here x := by
  rw [(nested_perm part hroot).mem_iff, List.mem_flatMap]

/-- What relates any two visits, in whichever order, relates what the stack finds. -/
theorem pairwise_nested {cs : List Char} (hlaid : Tree.Laid cs root.children) {R : α → α → Prop}
    (hsymm : ∀ {a b}, R a b → R b a)
    (hR : ∀ x ∈ visited root, ∀ y ∈ visited root, Comes x.1 y.1 →
      ∀ a ∈ part.here x, ∀ b ∈ part.here y, R a b) :
    (part.of (nested root)).Pairwise R := by
  rw [(nested_perm part hroot).pairwise_iff hsymm]
  refine List.pairwise_flatMap.mpr ⟨fun x _ => ?_, ?_⟩
  · match hx : part.here x with
    | [] => exact .nil
    | [a] => exact List.pairwise_singleton R a
    | a :: b :: as =>
      have hle := part.length_le_one x.1 x.2
      rw [← Part.here, hx] at hle
      simp at hle
  · exact (pairwise_visitAll (laid_childrenToVisit hlaid)).imp_of_mem fun hx hy hcomes =>
      hR _ hx _ hy hcomes

end

theorem comments_nestedHere (t : Tree) (isBody : Bool) :
    (nestedHere t isBody).comments = match t with | .comment c => [c] | _ => [] := by
  unfold nestedHere
  split <;> grind

theorem defers_nestedHere (t : Tree) (isBody : Bool) :
    (nestedHere t isBody).defers = if t.kind = .deferStatement then [t.span] else [] := by
  unfold nestedHere
  split <;> grind [Tree.kind]

theorem blocks_nestedHere (t : Tree) (isBody : Bool) :
    (nestedHere t isBody).blocks =
      if t.kind.isBraced then
        (bracePair? t).toList.map fun (lbrace, rbrace) =>
          ⟨lbrace, rbrace, if isBody then .functionBody else .statement⟩
      else [] := by
  unfold nestedHere
  cases bracePair? t <;> split <;> simp_all [NodeKind.isBraced, Tree.kind]

namespace Part

def comments : Part Comment where
  of := Nested.comments
  of_append _ _ := rfl
  of_empty := rfl
  length_le_one t isBody := by
    rw [comments_nestedHere]
    split <;> simp

def defers : Part Span where
  of := Nested.defers
  of_append _ _ := rfl
  of_empty := rfl
  length_le_one t isBody := by
    rw [defers_nestedHere]
    split <;> simp

def blocks : Part Block where
  of := Nested.blocks
  of_append _ _ := rfl
  of_empty := rfl
  length_le_one t isBody := by
    rw [blocks_nestedHere]
    cases bracePair? t <;> split <;> simp

theorem mem_comments_here {x : Tree × Bool} {c : Comment} :
    c ∈ comments.here x ↔ x.1 = .comment c := by
  change c ∈ (nestedHere x.1 x.2).comments ↔ _
  rw [comments_nestedHere]
  split <;> simp_all [eq_comm]

theorem mem_defers_here {x : Tree × Bool} {s : Span} :
    s ∈ defers.here x ↔ x.1.kind = .deferStatement ∧ x.1.span = s := by
  change s ∈ (nestedHere x.1 x.2).defers ↔ _
  rw [defers_nestedHere]
  split <;> simp_all [eq_comm]

theorem mem_blocks_here {x : Tree × Bool} {b : Block} :
    b ∈ blocks.here x ↔ x.1.kind.isBraced = true ∧ bracePair? x.1 = some (b.lbrace, b.rbrace) ∧
      b.kind = if x.2 then .functionBody else .statement := by
  change b ∈ (nestedHere x.1 x.2).blocks ↔ _
  rw [blocks_nestedHere]
  cases hpair : bracePair? x.1 with
  | none => simp
  | some pair =>
    obtain ⟨l, r⟩ := pair
    obtain ⟨l', r', k⟩ := b
    split
    case isTrue hkind =>
      simp only [Option.toList_some, List.map_cons, List.map_nil, List.mem_singleton,
        Block.mk.injEq, hkind, true_and, Option.some.injEq, Prod.mk.injEq]
      exact ⟨fun h => ⟨⟨h.1.symm, h.2.1.symm⟩, h.2.2⟩, fun h => ⟨h.1.1.symm, h.1.2.symm, h.2⟩⟩
    case isFalse hkind => simp [hkind]

end Part

end LayoutLint.Outline
