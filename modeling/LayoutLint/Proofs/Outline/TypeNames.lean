import LayoutLint.Outline.OfTree
import Mathlib.Tactic.Common

/-! # The names of types

A type has a name if it is a type name, with arguments or not, or a pointer to one, and parentheses
do not count. A pointer to a pointer has none. The name is looked for from the outside in, and only
the tree right below a pointer is asked whether it is a pointer too. So a name is also found below
several pointers if parentheses stand between any two of them.
-/

namespace LayoutLint.Outline

open Source

/-! ## Forms of types -/

/-- A type, as far as it matters for its name. -/
inductive TypeForm where
  | name (n : String)
  /-- A name with type arguments. -/
  | applied (n : String)
  | pointer (inner : TypeForm)
  | parens (inner : TypeForm)
  /-- A name with a package, a type literal, or no type at all. -/
  | other
  deriving DecidableEq, Repr

namespace TypeForm

def isPointer : TypeForm → Bool
  | pointer _ => true
  | _ => false

def withoutParens : TypeForm → TypeForm
  | pointer inner => pointer inner.withoutParens
  | parens inner => inner.withoutParens
  | form => form

def coreName? : TypeForm → Option String
  | name n => some n
  | applied n => some n
  | pointer inner => inner.coreName?
  | parens inner => inner.coreName?
  | other => none

def pointers : TypeForm → Nat
  | pointer inner => inner.pointers + 1
  | parens inner => inner.pointers
  | _ => 0

/-- Somewhere around the core a pointer stands right before another. -/
def doubled : TypeForm → Bool
  | pointer inner => inner.isPointer || inner.doubled
  | parens inner => inner.doubled
  | _ => false

/-- Without parentheses the type is the name or a pointer to it, with type arguments or not. -/
def Names (form : TypeForm) (n : String) : Prop :=
  form.withoutParens ∈ [name n, applied n, pointer (name n), pointer (applied n)]

instance (form : TypeForm) (n : String) : Decidable (form.Names n) :=
  inferInstanceAs (Decidable (_ ∈ _))

/-- The name stands below several pointers, with parentheses between any two of them. -/
structure NamesApart (form : TypeForm) (n : String) : Prop where
  core : form.coreName? = some n
  several : 2 ≤ form.pointers
  apart : form.doubled = false

def name? : TypeForm → Option String
  | name n => some n
  | applied n => some n
  | pointer inner => if inner.isPointer then none else inner.name?
  | parens inner => inner.name?
  | other => none

variable {form : TypeForm} {n : String}

theorem name?_eq_some_iff :
    form.name? = some n ↔ form.coreName? = some n ∧ form.doubled = false := by
  induction form with
  | name m => simp [name?, coreName?, doubled]
  | applied m => simp [name?, coreName?, doubled]
  | pointer inner ih =>
    rw [name?, coreName?, doubled]
    cases inner.isPointer with
    | true => simp
    | false => simpa using ih
  | parens inner ih => exact ih
  | other => simp [name?, coreName?]

theorem withoutParens_mem_iff :
    form.withoutParens ∈ [name n, applied n] ↔ form.coreName? = some n ∧ form.pointers = 0 := by
  induction form with
  | name m => simp [withoutParens, coreName?, pointers]
  | applied m => simp [withoutParens, coreName?, pointers]
  | pointer inner ih => simp [withoutParens, pointers]
  | parens inner ih => exact ih
  | other => simp [withoutParens, coreName?]

theorem names_iff : form.Names n ↔ form.coreName? = some n ∧ form.pointers ≤ 1 := by
  induction form with
  | name m => simp [Names, withoutParens, coreName?, pointers]
  | applied m => simp [Names, withoutParens, coreName?, pointers]
  | pointer inner ih =>
    have hnames : (pointer inner).Names n ↔ inner.withoutParens ∈ [name n, applied n] := by
      simp [Names, withoutParens]
    rw [hnames, withoutParens_mem_iff, coreName?, pointers, Nat.succ_le_succ_iff, Nat.le_zero]
  | parens inner ih => exact ih
  | other => simp [Names, withoutParens, coreName?]

theorem pointers_pos_of_isPointer (h : form.isPointer = true) : 0 < form.pointers := by
  cases form <;> cases h
  exact Nat.succ_pos _

theorem two_le_pointers_of_doubled (h : form.doubled = true) : 2 ≤ form.pointers := by
  induction form with
  | pointer inner ih =>
    rw [doubled, Bool.or_eq_true] at h
    rw [pointers]
    rcases h with h | h
    · have := pointers_pos_of_isPointer h
      omega
    · exact Nat.le_succ_of_le (ih h)
  | parens inner ih => exact ih h
  | name => cases h
  | applied => cases h
  | other => cases h

theorem name?_eq_some_iff_names : form.name? = some n ↔ form.Names n ∨ form.NamesApart n := by
  rw [name?_eq_some_iff, names_iff]
  constructor
  · rintro ⟨hcore, hdoubled⟩
    rcases Nat.lt_or_ge form.pointers 2 with hlt | hge
    · exact .inl ⟨hcore, Nat.le_of_lt_succ hlt⟩
    · exact .inr ⟨hcore, hge, hdoubled⟩
  · rintro (⟨hcore, hle⟩ | h)
    · refine ⟨hcore, Bool.eq_false_iff.mpr fun hdoubled => ?_⟩
      have := two_le_pointers_of_doubled hdoubled
      omega
    · exact ⟨h.core, h.apart⟩

end TypeForm

/-! ## Forms of trees -/

mutual

def typeForm : Tree → TypeForm
  | .leaf _ kind token => if kind = .typeIdentifier then .name token.text else .other
  | .comment _ => .other
  | .missing _ kind _ _ => if kind = .typeIdentifier then .name "" else .other
  | .node field kind children =>
    match kind with
    | .genericType =>
      match Tree.child? (.node field kind children) .type with
      | some t => if t.kind = .typeIdentifier then .applied t.text else .other
      | none => .other
    | .pointerType => .pointer (innerForm children)
    | .parenthesizedType => .parens (innerForm children)
    | _ => .other

def innerForm : List Tree → TypeForm
  | [] => .other
  | t :: ts => if t.isNamed then typeForm t else innerForm ts

end

theorem isPointer_typeForm {t : Tree} (h : (typeForm t).isPointer = true) :
    t.kind = .pointerType := by
  cases t with
  | leaf field kind token =>
    rw [typeForm] at h
    split at h <;> cases h
  | comment c => cases h
  | missing field kind text offset =>
    rw [typeForm] at h
    split at h <;> cases h
  | node field kind children =>
    unfold typeForm at h
    split at h
    · split at h
      · split at h <;> cases h
      · cases h
    · rfl
    · cases h
    · cases h

theorem name?_typeForm_of_kind {t : Tree} (hform : (typeForm t).isPointer = false)
    (h : t.kind = .pointerType) : (typeForm t).name? = none := by
  cases t with
  | leaf field kind token =>
    cases h
    rfl
  | comment c => rfl
  | missing field kind text offset =>
    cases h
    rfl
  | node field kind children =>
    cases h
    cases hform

theorem typeForm_of_kind {field : Option Field} {kind : NodeKind} {children : List Tree}
    (hgeneric : kind ≠ .genericType) (hpointer : kind ≠ .pointerType)
    (hparens : kind ≠ .parenthesizedType) :
    baseTypeName? (.node field kind children) = none ∧
      typeForm (.node field kind children) = .other := by
  constructor
  · unfold baseTypeName?
    split
    · exact absurd rfl hgeneric
    · exact absurd rfl hpointer
    · exact absurd rfl hparens
    · rfl
  · unfold typeForm
    split
    · exact absurd rfl hgeneric
    · exact absurd rfl hpointer
    · exact absurd rfl hparens
    · rfl

mutual

theorem baseTypeName?_eq_name? (t : Tree) : baseTypeName? t = (typeForm t).name? := by
  cases t with
  | leaf field kind token =>
    rw [baseTypeName?, typeForm]
    split <;> rfl
  | comment c => rfl
  | missing field kind text offset =>
    rw [baseTypeName?, typeForm]
    split <;> rfl
  | node field kind children =>
    by_cases hgeneric : kind = .genericType
    · subst hgeneric
      unfold baseTypeName? typeForm
      dsimp only
      cases Tree.child? (.node field .genericType children) .type with
      | none => rfl
      | some t =>
        rw [Option.bind_some]
        dsimp only
        split <;> rfl
    by_cases hpointer : kind = .pointerType
    · subst hpointer
      unfold baseTypeName? typeForm
      dsimp only
      rw [innerTypeName?_eq]
      rfl
    by_cases hparens : kind = .parenthesizedType
    · subst hparens
      unfold baseTypeName? typeForm
      dsimp only
      rw [innerTypeName?_eq]
      rfl
    obtain ⟨hname, hform⟩ := typeForm_of_kind hgeneric hpointer hparens
    rw [hname, hform]
    rfl

theorem innerTypeName?_eq (pointers : Bool) (ts : List Tree) :
    innerTypeName? pointers ts =
      if !pointers && (innerForm ts).isPointer then none else (innerForm ts).name? := by
  cases ts with
  | nil =>
    rw [innerTypeName?, innerForm]
    split <;> rfl
  | cons t ts =>
    rw [innerTypeName?, innerForm, innerTypeName?_eq pointers ts, baseTypeName?_eq_name? t]
    cases hnamed : t.isNamed with
    | false => rfl
    | true =>
      cases hform : (typeForm t).isPointer with
      | true =>
        have hkind := isPointer_typeForm hform
        cases pointers <;> simp [hform, hkind]
      | false =>
        have hkind : t.kind = .pointerType → (typeForm t).name? = none :=
          name?_typeForm_of_kind hform
        by_cases h : t.kind = .pointerType
        · simp [hform, hkind h]
        · simp [hform, h]

end

/-! ## Names of types -/

theorem baseTypeName?_eq_some_iff {t : Tree} {n : String} :
    baseTypeName? t = some n ↔ (typeForm t).Names n ∨ (typeForm t).NamesApart n := by
  rw [baseTypeName?_eq_name?, TypeForm.name?_eq_some_iff_names]

theorem typeRef_eq_pointer_iff {t : Tree} {n : String} :
    typeRef t = .pointer n ↔ (typeForm t).isPointer = true ∧ baseTypeName? t = some n := by
  constructor
  · intro h
    unfold typeRef at h
    split at h
    · cases hname : baseTypeName? t <;> simp [hname] at h
    · cases hname : baseTypeName? t <;> simp [hname] at h
    case h_3 hkind =>
      cases hname : baseTypeName? t with
      | none => simp [hname] at h
      | some m =>
        rw [hname, Option.elim_some, TypeRef.pointer.injEq] at h
        refine ⟨Bool.not_eq_false _ |>.mp fun hform => ?_, congrArg some h⟩
        rw [baseTypeName?_eq_name?, name?_typeForm_of_kind hform hkind] at hname
        cases hname
    · cases h
  · rintro ⟨hpointer, hname⟩
    rw [typeRef, isPointer_typeForm hpointer, hname]
    rfl

/-- A type has the name exactly if, without parentheses, it is the name or a pointer to it, with
type arguments or not, or if the name stands below several pointers with parentheses between any two
of them. A result type is a pointer to the name exactly if it also starts with a pointer. -/
theorem baseTypeName?_and_typeRef_iff (t : Tree) (n : String) :
    (baseTypeName? t = some n ↔ (typeForm t).Names n ∨ (typeForm t).NamesApart n) ∧
      (typeRef t = .pointer n ↔
        (typeForm t).isPointer = true ∧ ((typeForm t).Names n ∨ (typeForm t).NamesApart n)) :=
  ⟨baseTypeName?_eq_some_iff, by rw [typeRef_eq_pointer_iff, baseTypeName?_eq_some_iff]⟩

def partedPointer : Tree :=
  let mark (text : String) (start : Nat) : Tree :=
    .leaf none .mark ⟨.operator, text, start, false, []⟩
  .node none .pointerType
    [mark "*" 0,
     .node none .parenthesizedType
      [mark "(" 1,
       .node none .pointerType
        [mark "*" 2, .leaf none .typeIdentifier ⟨.word, "T", 3, false, []⟩],
       mark ")" 4]]

/-- A pointer to a pointer has a name if parentheses stand between the two. -/
theorem not_forall_baseTypeName?_iff_names :
    ¬ ∀ (t : Tree) (n : String), baseTypeName? t = some n ↔ (typeForm t).Names n := by
  intro h
  have hform : typeForm partedPointer = .pointer (.parens (.pointer (.name "T"))) := by
    decide +kernel
  have hname : baseTypeName? partedPointer = some "T" := by decide +kernel
  have hnames := (h partedPointer "T").mp hname
  rw [hform] at hnames
  revert hnames
  decide +kernel

end LayoutLint.Outline
