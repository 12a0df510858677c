import LayoutLint.Proofs.Outline.Visits
import Mathlib.Logic.Function.Iterate

/-! # The stack and the recursion

What stands at any depth of a tree is gathered with a stack. A recursive traversal that lists each
named tree before its children meets the same trees, in another order. Since equal trees may stand
at several places, the traversal lists places: for each tree, the way down to it. The stack is empty
after as many turns as there are places, and it has then found what stands at each of them, once.
-/

namespace LayoutLint

namespace Source.Tree

/-- The tree to which an address leads: the numbers of the children on the way down, all named. -/
def named? : Tree → List Nat → Option Tree
  | t, [] => some t
  | t, i :: p => t.children[i]?.bind fun c => if c.isNamed then named? c p else none

mutual

/-- The addresses of a tree and of the named trees in it, each before those of its children, and
the children from left to right. -/
def addresses : Tree → List (List Nat)
  | leaf _ _ _ => [[]]
  | comment _ => [[]]
  | missing _ _ _ _ => [[]]
  | node _ _ cs => [] :: addressesOf 0 cs

def addressesOf (i : Nat) : List Tree → List (List Nat)
  | [] => []
  | t :: ts => (if t.isNamed then t.addresses.map (i :: ·) else []) ++ addressesOf (i + 1) ts

end

/-! ## Addresses -/

def addressesThrough (t : Tree) (i : Nat) : List (List Nat) :=
  if t.isNamed then t.addresses.map (i :: ·) else []

theorem addressesOf_eq (i : Nat) (ts : List Tree) :
    addressesOf i ts = (ts.zipIdx i).flatMap fun x => x.1.addressesThrough x.2 := by
  induction ts generalizing i with
  | nil => rfl
  | cons t ts ih =>
    rw [addressesOf, ih, List.zipIdx_cons, List.flatMap_cons]
    rfl

theorem addresses_eq (t : Tree) :
    t.addresses = [] :: t.children.zipIdx.flatMap fun x => x.1.addressesThrough x.2 := by
  cases t with
  | leaf => rfl
  | comment => rfl
  | missing => rfl
  | node field kind cs => rw [addresses, addressesOf_eq, children]

theorem mem_addressesThrough {t : Tree} {i : Nat} {p : List Nat} :
    p ∈ t.addressesThrough i ↔ t.isNamed = true ∧ ∃ q ∈ t.addresses, i :: q = p := by
  rw [addressesThrough]
  split
  case isTrue h => simp [h]
  case isFalse h => simp [h]

theorem mem_addresses_iff (t : Tree) (p : List Nat) :
    p ∈ t.addresses ↔ (t.named? p).isSome = true := by
  refine induction_on_children (P := fun t => ∀ p, p ∈ t.addresses ↔ (t.named? p).isSome = true)
    (fun t ih p => ?_) t p
  rw [addresses_eq, List.mem_cons, List.mem_flatMap]
  cases p with
  | nil => simp [named?]
  | cons i p =>
    constructor
    · rintro (h | ⟨⟨c, j⟩, hc, h⟩)
      · cases h
      · obtain ⟨hnamed, q, hq, heq⟩ := mem_addressesThrough.mp h
        obtain ⟨rfl, rfl⟩ := List.cons.inj heq
        have hchild : t.children[j]? = some c := List.mem_zipIdx_iff_getElem?.mp hc
        rw [named?, hchild, Option.bind_some, if_pos hnamed]
        exact (ih c (List.mem_of_getElem? hchild) q).mp hq
    · intro h
      rw [named?] at h
      obtain ⟨u, hu⟩ := Option.isSome_iff_exists.mp h
      obtain ⟨c, hc, hu⟩ := Option.bind_eq_some_iff.mp hu
      split at hu
      case isTrue hnamed =>
        have hp := (ih c (List.mem_of_getElem? hc) p).mpr (Option.isSome_iff_exists.mpr ⟨u, hu⟩)
        exact .inr ⟨(c, i), List.mem_zipIdx_iff_getElem?.mpr hc,
          mem_addressesThrough.mpr ⟨hnamed, p, hp, rfl⟩⟩
      case isFalse => cases hu

theorem pairwise_snd_zipIdx (ts : List Tree) (i : Nat) :
    (ts.zipIdx i).Pairwise fun x y => x.2 < y.2 := by
  induction ts generalizing i with
  | nil => exact .nil
  | cons t ts ih =>
    rw [List.zipIdx_cons]
    exact List.pairwise_cons.mpr ⟨fun x hx => List.le_snd_of_mem_zipIdx hx, ih (i + 1)⟩

theorem nodup_addresses (t : Tree) : t.addresses.Nodup := by
  refine induction_on_children (P := fun t => t.addresses.Nodup) (fun t ih => ?_) t
  rw [addresses_eq, List.nodup_cons]
  constructor
  · intro h
    obtain ⟨x, -, hx⟩ := List.mem_flatMap.mp h
    obtain ⟨-, q, -, hq⟩ := mem_addressesThrough.mp hx
    cases hq
  · refine List.pairwise_flatMap.mpr ⟨fun x hx => ?_, ?_⟩
    · rw [addressesThrough]
      split
      · have hchild := List.mem_of_getElem? (List.mem_zipIdx_iff_getElem?.mp hx)
        exact List.pairwise_map.mpr ((ih x.1 hchild).imp fun hne heq => hne (List.cons.inj heq).2)
      · exact .nil
    · -- Addresses through two children differ in their first number.
      refine (pairwise_snd_zipIdx t.children 0).imp fun hlt p hp q hq => ?_
      obtain ⟨-, p, -, rfl⟩ := mem_addressesThrough.mp hp
      obtain ⟨-, q, -, rfl⟩ := mem_addressesThrough.mp hq
      exact fun heq => Nat.ne_of_lt hlt (List.cons.inj heq).1

end Source.Tree

namespace Outline

open Source

/-! ## What stands at an address -/

/-- The address leads to the body of a function: of the children of a function, a method or a
function literal, to the one found first in that part. -/
def isBodyAt (root : Tree) (p : List Nat) : Bool :=
  p.getLast?.any fun i => (root.named? p.dropLast).any fun f =>
    isFunctionLike f && f.children.findIdx? (·.field? = some .body) = some i

def commentAt? (root : Tree) (p : List Nat) : Option Comment :=
  (root.named? p).bind fun
    | .comment c => some c
    | _ => none

def deferAt? (root : Tree) (p : List Nat) : Option Span :=
  (root.named? p).bind fun t => if t.kind = .deferStatement then some t.span else none

def blockAt? (root : Tree) (p : List Nat) : Option Block :=
  (root.named? p).bind fun t =>
    if t.kind = .block ∨ t.kind = .expressionSwitchStatement ∨ t.kind = .typeSwitchStatement ∨
        t.kind = .selectStatement then
      (bracePair? t).map fun braces =>
        ⟨braces.1, braces.2, if isBodyAt root p then .functionBody else .statement⟩
    else none

/-! ## Visits and addresses -/

def visitAt? (isBody : Bool) (root : Tree) (p : List Nat) : Option (Tree × Bool) :=
  (root.named? p).map fun t => (t, if p = [] then isBody else isBodyAt root p)

theorem markBody_eq (hasBody : Bool) (cs : List Tree) :
    markBody hasBody cs = cs.zipIdx.map fun x =>
      (x.1, hasBody && cs.findIdx? (·.field? = some .body) = some x.2) := by
  induction cs generalizing hasBody with
  | nil => rfl
  | cons c cs ih =>
    rw [markBody, ih, List.zipIdx_cons', List.map_cons, List.map_map]
    by_cases hc : c.field? = some .body
    · cases hasBody <;> simp [List.findIdx?_cons, hc, Function.comp_def]
    · simp [List.findIdx?_cons, hc, Function.comp_def]

theorem visitAt?_cons {t c : Tree} {i : Nat} (hc : t.children[i]? = some c)
    (hnamed : c.isNamed = true) (isBody : Bool) (p : List Nat) :
    visitAt? isBody t (i :: p) =
      visitAt? (isFunctionLike t && t.children.findIdx? (·.field? = some .body) = some i) c p := by
  have hbelow : ∀ q, t.named? (i :: q) = c.named? q := by
    intro q
    rw [Tree.named?, hc, Option.bind_some, if_pos hnamed]
  rw [visitAt?, visitAt?, hbelow]
  congr 1
  funext u
  cases p with
  | nil => simp [isBodyAt, Tree.named?]
  | cons j p =>
    rw [if_neg (List.cons_ne_nil _ _), if_neg (List.cons_ne_nil _ _), isBodyAt, isBodyAt,
      List.getLast?_cons_cons, List.dropLast_cons_cons, hbelow]

theorem visitAll_filter_isNamed (xs : List (Tree × Bool)) :
    visitAll (xs.filter (·.1.isNamed)) =
      xs.flatMap fun x => if x.1.isNamed then visits x.2 x.1 else [] := by
  induction xs with
  | nil => rfl
  | cons x xs ih =>
    rw [List.filter_cons, List.flatMap_cons, ← ih]
    split <;> rfl

/-- The recursion meets the trees at the addresses, with their marks. -/
theorem visits_eq_filterMap (isBody : Bool) (t : Tree) :
    visits isBody t = t.addresses.filterMap (visitAt? isBody t) := by
  refine Tree.induction_on_children
    (P := fun t => ∀ b, visits b t = t.addresses.filterMap (visitAt? b t))
    (fun t ih b => ?_) t isBody
  have hroot : visitAt? b t [] = some (t, b) := rfl
  rw [visits_eq, Tree.addresses_eq, List.filterMap_cons_some hroot, childrenToVisit,
    visitAll_filter_isNamed, markBody_eq, List.flatMap_map, List.filterMap_flatMap]
  congr 1
  refine List.flatMap_congr fun x hx => ?_
  have hchild : t.children[x.2]? = some x.1 := List.mem_zipIdx_iff_getElem?.mp hx
  rw [Tree.addressesThrough]
  split
  case isTrue hnamed =>
    rw [ih x.1 (List.mem_of_getElem? hchild), List.filterMap_map]
    congr 1
    funext p
    exact (visitAt?_cons hchild hnamed b p).symm
  case isFalse => rfl

theorem flatMap_here_eq_filterMap {α : Type} (part : Part α) {at? : Tree → List Nat → Option α}
    (hhere : ∀ root p, (visitAt? false root p).elim [] part.here = (at? root p).toList)
    (t : Tree) : (visits false t).flatMap part.here = t.addresses.filterMap (at? t) := by
  rw [visits_eq_filterMap, List.filterMap_eq_flatMap_toList, List.filterMap_eq_flatMap_toList,
    List.flatMap_assoc]
  refine List.flatMap_congr fun p _ => ?_
  rw [← hhere]
  cases visitAt? false t p with
  | none => rfl
  | some x => exact List.flatMap_singleton _ _

theorem isBodyAt_nil (root : Tree) : isBodyAt root [] = false := rfl

theorem visitAt?_false (root : Tree) (p : List Nat) :
    visitAt? false root p = (root.named? p).map fun t => (t, isBodyAt root p) := by
  rw [visitAt?]
  cases p with
  | nil => rw [if_pos rfl, isBodyAt_nil]
  | cons i p => rw [if_neg (List.cons_ne_nil i p)]

theorem nested_perm_addresses {α : Type} (part : Part α) {at? : Tree → List Nat → Option α}
    (hhere : ∀ root p, (visitAt? false root p).elim [] part.here = (at? root p).toList)
    (t : Tree) : (part.of (nested t)).Perm (t.addresses.filterMap (at? t)) := by
  have hperm := collect_perm part {} [(t, false)]
  have hvisits : visitAll [(t, false)] = visits false t := List.flatMap_singleton _ _
  rwa [part.of_empty, List.append_nil, hvisits, flatMap_here_eq_filterMap part hhere] at hperm

theorem comments_nested_perm (t : Tree) :
    (nested t).comments.Perm (t.addresses.filterMap (commentAt? t)) := by
  refine nested_perm_addresses Part.comments (fun root p => ?_) t
  rw [visitAt?_false, commentAt?]
  cases root.named? p with
  | none => rfl
  | some u =>
    refine (comments_nestedHere u (isBodyAt root p)).trans ?_
    cases u <;> rfl

theorem defers_nested_perm (t : Tree) :
    (nested t).defers.Perm (t.addresses.filterMap (deferAt? t)) := by
  refine nested_perm_addresses Part.defers (fun root p => ?_) t
  rw [visitAt?_false, deferAt?]
  cases root.named? p with
  | none => rfl
  | some u =>
    refine (defers_nestedHere u (isBodyAt root p)).trans ?_
    rw [Option.bind_some]
    split <;> rfl

theorem blocks_nested_perm (t : Tree) :
    (nested t).blocks.Perm (t.addresses.filterMap (blockAt? t)) := by
  refine nested_perm_addresses Part.blocks (fun root p => ?_) t
  rw [visitAt?_false, blockAt?]
  cases root.named? p with
  | none => rfl
  | some u =>
    have hkind : u.kind.isBraced = true ↔ u.kind = .block ∨ u.kind = .expressionSwitchStatement ∨
        u.kind = .typeSwitchStatement ∨ u.kind = .selectStatement := by
      simp [NodeKind.isBraced, or_assoc]
    refine (blocks_nestedHere u (isBodyAt root p)).trans ?_
    rw [Option.bind_some]
    by_cases h : u.kind.isBraced = true
    · rw [if_pos h, if_pos (hkind.mp h)]
      cases bracePair? u <;> rfl
    · rw [if_neg h, if_neg (mt hkind.mpr h)]
      rfl

/-! ## The turns of the stack -/

def turn : Nested × List (Tree × Bool) → Nested × List (Tree × Bool)
  | (found, []) => (found, [])
  | (found, (t, isBody) :: stack) =>
    (nestedHere t isBody ++ found, (childrenToVisit t).reverse ++ stack)

theorem length_visitAll_cons (t : Tree) (isBody : Bool) (stack : List (Tree × Bool)) :
    (visitAll ((t, isBody) :: stack)).length =
      (visitAll ((childrenToVisit t).reverse ++ stack)).length + 1 :=
  (visitAll_cons_perm t isBody stack).length_eq

theorem iterate_turn_nil (found : Nested) (n : Nat) : turn^[n] (found, []) = (found, []) :=
  Function.iterate_fixed rfl n

theorem iterate_turn_eq_nil_iff (found : Nested) (stack : List (Tree × Bool)) (n : Nat) :
    (turn^[n] (found, stack)).2 = [] ↔ (visitAll stack).length ≤ n := by
  induction n generalizing found stack with
  | zero =>
    cases stack with
    | nil => exact ⟨fun _ => Nat.le_refl 0, fun _ => rfl⟩
    | cons x stack =>
      constructor
      · intro h
        cases h
      · intro h
        rw [length_visitAll_cons] at h
        omega
  | succ n ih =>
    cases stack with
    | nil =>
      rw [iterate_turn_nil]
      exact ⟨fun _ => Nat.zero_le _, fun _ => rfl⟩
    | cons x stack =>
      rw [Function.iterate_succ_apply, length_visitAll_cons, Nat.add_le_add_iff_right]
      exact ih (nestedHere x.1 x.2 ++ found) ((childrenToVisit x.1).reverse ++ stack)

/-- When the stack is empty, all is found. -/
theorem iterate_turn_of_le {found : Nested} {stack : List (Tree × Bool)} {n : Nat}
    (h : (visitAll stack).length ≤ n) : turn^[n] (found, stack) = (collect found stack, []) := by
  induction n generalizing found stack with
  | zero =>
    cases stack with
    | nil => rw [collect]; rfl
    | cons x stack =>
      rw [length_visitAll_cons] at h
      omega
  | succ n ih =>
    cases stack with
    | nil => rw [iterate_turn_nil, collect]
    | cons x stack =>
      rw [length_visitAll_cons, Nat.add_le_add_iff_right] at h
      rw [Function.iterate_succ_apply, collect]
      exact ih h

theorem length_visits (t : Tree) : (visitAll [(t, false)]).length = t.addresses.length := by
  have hsome : ∀ p ∈ t.addresses, (visitAt? false t p).isSome = true := by
    intro p hp
    rw [visitAt?, Option.isSome_map]
    exact (t.mem_addresses_iff p).mp hp
  have hvisits : visitAll [(t, false)] = visits false t := List.flatMap_singleton _ _
  rw [hvisits, visits_eq_filterMap]
  exact List.filterMap_length_eq_length.mpr hsome

/-- The stack is empty after as many turns as there are named trees, and not before. Each of them
has an address of its own, and what the stack has found then is, in some order, what the recursive
traversal meets at these addresses. -/
theorem nested_eq_traversal (t : Tree) :
    (∀ n, (turn^[n] ({}, [(t, false)])).2 = [] ↔ t.addresses.length ≤ n) ∧
      turn^[t.addresses.length] ({}, [(t, false)]) = (nested t, []) ∧
      t.addresses.Nodup ∧ (∀ p, p ∈ t.addresses ↔ (t.named? p).isSome = true) ∧
      (nested t).comments.Perm (t.addresses.filterMap (commentAt? t)) ∧
      (nested t).defers.Perm (t.addresses.filterMap (deferAt? t)) ∧
      (nested t).blocks.Perm (t.addresses.filterMap (blockAt? t)) := by
  have hlength := length_visits t
  refine ⟨fun n => ?_, ?_, t.nodup_addresses, t.mem_addresses_iff, comments_nested_perm t,
    defers_nested_perm t, blocks_nested_perm t⟩
  · rw [iterate_turn_eq_nil_iff, hlength]
  · exact iterate_turn_of_le (Nat.le_of_eq hlength)

end Outline

end LayoutLint
