import LayoutLint.Rules.Separator.Constructor
import Mathlib.Data.List.Basic
import Mathlib.Data.List.Induction

/-! # What a constructor returns

The statements of a function are read once, with the variables bound so far. What a variable is
bound to at a statement is what the last assignment to it above that statement says.
-/

namespace LayoutLint.Separator

def Assigns (x : String) (s : Stmt) : Prop :=
  ∃ targets values, s = .assign targets values ∧ some x ∈ targets

/-- In the last place at which the targets name the variable, the values have the address of a
literal of the type. -/
def PointsTo (x type : String) (targets : List (Option String)) (values : List Expr) : Prop :=
  ∃ i : Nat, targets[i]? = some (some x) ∧ (∀ j, i < j → targets[j]? ≠ some (some x)) ∧
    values[i]? = some (.addressOf type)

/-- The last of the statements that assigns to the variable makes it point to the type. -/
def BoundTo (x type : String) (stmts : List Stmt) : Prop :=
  ∃ above targets values below, stmts = above ++ .assign targets values :: below ∧
    PointsTo x type targets values ∧ ∀ s ∈ below, ¬ Assigns x s

/-! ## One assignment -/

section Assign

variable {x type : String} {target : Option String} {targets : List (Option String)}
  {values : List Expr}

theorem typeOf?_bind {b : Bindings} {name : String} {type? : Option String} :
    (b.bind name type?).typeOf? x = if x = name then type? else b.typeOf? x := by
  unfold Bindings.bind Bindings.typeOf?
  rw [List.lookup_cons]
  by_cases h : x = name
  · simp [h]
  · rw [beq_false_of_ne h, if_neg h]

theorem addressedType?_eq_some_iff {e : Expr} :
    addressedType? e = some type ↔ e = .addressOf type := by
  cases e <;> simp [addressedType?]

theorem PointsTo.mem (h : PointsTo x type targets values) : some x ∈ targets := by
  obtain ⟨i, hi, -, -⟩ := h
  exact List.mem_of_getElem? hi

theorem not_pointsTo_nil : ¬ PointsTo x type [] values := by
  intro h
  exact absurd h.mem List.not_mem_nil

/-- A later place that names the variable takes precedence over the first. -/
theorem pointsTo_cons_iff :
    PointsTo x type (target :: targets) values ↔
      PointsTo x type targets values.tail ∨
        some x ∉ targets ∧ target = some x ∧ values.head? = some (.addressOf type) := by
  constructor
  · rintro ⟨i, hi, hlast, hvalue⟩
    cases i with
    | zero =>
      right
      refine ⟨fun hmem => ?_, Option.some.inj hi, by rwa [List.head?_eq_getElem?]⟩
      obtain ⟨j, hj⟩ := List.mem_iff_getElem?.mp hmem
      exact hlast (j + 1) (Nat.succ_pos j) hj
    | succ i =>
      left
      refine ⟨i, hi, fun j hj => ?_, by rwa [List.getElem?_tail]⟩
      exact hlast (j + 1) (Nat.succ_lt_succ hj)
  · rintro (⟨i, hi, hlast, hvalue⟩ | ⟨hnot, rfl, hvalue⟩)
    · refine ⟨i + 1, hi, fun j hj => ?_, by rwa [List.getElem?_tail] at hvalue⟩
      obtain ⟨j, rfl⟩ := Nat.exists_eq_succ_of_ne_zero (Nat.ne_zero_of_lt hj)
      exact hlast j (Nat.lt_of_succ_lt_succ hj)
    · refine ⟨0, rfl, fun j hj hmem => ?_, by rwa [← List.head?_eq_getElem?]⟩
      obtain ⟨j, rfl⟩ := Nat.exists_eq_succ_of_ne_zero (Nat.ne_zero_of_lt hj)
      exact hnot (List.mem_of_getElem? hmem)

theorem typeOf?_assign {b : Bindings} :
    (assign b targets values).typeOf? x = some type ↔
      PointsTo x type targets values ∨ some x ∉ targets ∧ b.typeOf? x = some type := by
  induction targets generalizing b values with
  | nil => simp [assign, not_pointsTo_nil]
  | cons target targets ih =>
    rw [pointsTo_cons_iff, List.mem_cons, not_or]
    cases target with
    | none =>
      have hskip : assign b (none :: targets) values = assign b targets values.tail := rfl
      simp [hskip, ih]
    | some name =>
      have hbind : assign b (some name :: targets) values =
          assign (b.bind name (values.head?.bind addressedType?)) targets values.tail := rfl
      rw [hbind, ih, typeOf?_bind]
      by_cases hx : x = name
      · subst hx
        simp [Option.bind_eq_some_iff, addressedType?_eq_some_iff]
      · simp [hx, Ne.symm hx]

end Assign

/-! ## The statements above a return -/

def Bindings.step (b : Bindings) : Stmt → Bindings
  | .assign targets values => assign b targets values
  | _ => b

def Bindings.after (b : Bindings) (stmts : List Stmt) : Bindings := stmts.foldl Bindings.step b

section After

variable {x type : String} {stmts : List Stmt} {s : Stmt}

theorem typeOf?_step {b : Bindings} :
    (b.step s).typeOf? x = some type ↔
      (∃ targets values, s = .assign targets values ∧ PointsTo x type targets values) ∨
        ¬ Assigns x s ∧ b.typeOf? x = some type := by
  cases s with
  | returns values => simp [Bindings.step, Assigns]
  | other => simp [Bindings.step, Assigns]
  | assign targets values => simp [Bindings.step, Assigns, typeOf?_assign]

theorem not_boundTo_nil : ¬ BoundTo x type [] := by
  rintro ⟨above, targets, values, below, h, -, -⟩
  simp at h

theorem boundTo_concat_iff :
    BoundTo x type (stmts ++ [s]) ↔
      (∃ targets values, s = .assign targets values ∧ PointsTo x type targets values) ∨
        ¬ Assigns x s ∧ BoundTo x type stmts := by
  constructor
  · rintro ⟨above, targets, values, below, h, hpoints, hbelow⟩
    rcases List.eq_nil_or_concat' below with rfl | ⟨below, last, rfl⟩
    · have hlast := List.singleton_inj.mp (List.append_inj_right' h rfl)
      exact .inl ⟨targets, values, hlast, hpoints⟩
    · rw [← List.cons_append, ← List.append_assoc] at h
      obtain ⟨rfl, hlast⟩ := List.append_inj' h rfl
      obtain rfl := List.singleton_inj.mp hlast
      refine .inr ⟨hbelow s (by simp), above, targets, values, below, rfl, hpoints, ?_⟩
      exact fun s' hs' => hbelow s' (List.mem_append_left _ hs')
  · rintro (⟨targets, values, rfl, hpoints⟩ |
      ⟨hs, above, targets, values, below, rfl, hpoints, hbelow⟩)
    · exact ⟨stmts, targets, values, [], rfl, hpoints, by simp⟩
    · refine ⟨above, targets, values, below ++ [s], by simp, hpoints, ?_⟩
      intro s' hs'
      rcases List.mem_append.mp hs' with hs' | hs'
      · exact hbelow s' hs'
      · rwa [List.mem_singleton.mp hs']

/-- The bindings know the last assignment to each variable and no more. -/
theorem typeOf?_after : (Bindings.after [] stmts).typeOf? x = some type ↔ BoundTo x type stmts := by
  induction stmts using List.reverseRecOn with
  | nil => exact iff_of_false (by simp [Bindings.after, Bindings.typeOf?]) not_boundTo_nil
  | append_singleton stmts s ih =>
    have hstep : Bindings.after [] (stmts ++ [s]) = (Bindings.after [] stmts).step s :=
      List.foldl_append
    rw [hstep, typeOf?_step, ih, boundTo_concat_iff]

theorem someReturn_iff {name : String} {b : Bindings} :
    someReturn name b stmts = true ↔
      ∃ k values, stmts[k]? = some (.returns values) ∧
        returnsAddress name (b.after (stmts.take k)) values = true := by
  induction stmts generalizing b with
  | nil => simp [someReturn]
  | cons s stmts ih =>
    have hsplit : (∃ k values, (s :: stmts)[k]? = some (.returns values) ∧
          returnsAddress name (b.after ((s :: stmts).take k)) values = true) ↔
        (∃ values, s = .returns values ∧ returnsAddress name b values = true) ∨
          someReturn name (b.step s) stmts = true := by
      rw [ih]
      constructor
      · rintro ⟨k, values, hk, hreturns⟩
        cases k with
        | zero => exact .inl ⟨values, Option.some.inj hk, hreturns⟩
        | succ k => exact .inr ⟨k, values, hk, hreturns⟩
      · rintro (⟨values, rfl, hreturns⟩ | ⟨k, values, hk, hreturns⟩)
        · exact ⟨0, values, rfl, hreturns⟩
        · exact ⟨k + 1, values, hk, hreturns⟩
    rw [hsplit]
    cases s <;> simp [someReturn, Bindings.step]

end After

/-! ## Constructors -/

theorem returnsAddress_iff {name : String} {stmts : List Stmt} {values : List Expr} :
    returnsAddress name (Bindings.after [] stmts) values = true ↔
      .addressOf name ∈ values ∨ ∃ x, .ident x ∈ values ∧ BoundTo x name stmts := by
  simp only [returnsAddress, List.any_eq_true, ← typeOf?_after]
  constructor
  · rintro ⟨value, hmem, hvalue⟩
    cases value with
    | addressOf type => exact .inl (by rwa [← eq_of_beq hvalue])
    | ident x => exact .inr ⟨x, hmem, eq_of_beq hvalue⟩
    | other => cases hvalue
  · rintro (hmem | ⟨x, hmem, hbound⟩)
    · exact ⟨_, hmem, beq_self_eq_true name⟩
    · exact ⟨_, hmem, by simp [hbound]⟩

theorem declaresResult_iff {name : String} {f : FuncDecl} :
    declaresResult name f = true ↔ .named name ∈ f.results ∨ .pointer name ∈ f.results := by
  simp only [declaresResult, List.any_eq_true]
  constructor
  · rintro ⟨result, hmem, hresult⟩
    cases result with
    | named n => exact .inl (by rwa [← eq_of_beq hresult])
    | pointer n => exact .inr (by rwa [← eq_of_beq hresult])
    | other => cases hresult
  · rintro (hmem | hmem)
    · exact ⟨_, hmem, beq_self_eq_true name⟩
    · exact ⟨_, hmem, beq_self_eq_true name⟩

/-- A function constructs a structure exactly if it declares the structure or a pointer to it as a
result, or if one of its statements returns the address of a literal of it, or a variable that the
last assignment above the return made point to one. -/
theorem isConstructorOf_iff (f : FuncDecl) (name : String) :
    isConstructorOf f name = true ↔
      (.named name ∈ f.results ∨ .pointer name ∈ f.results) ∨
      ∃ body, f.body = some body ∧
        ∃ k values, body.statements[k]? = some (.returns values) ∧
          (.addressOf name ∈ values ∨
            ∃ x, .ident x ∈ values ∧ BoundTo x name (body.statements.take k)) := by
  rw [isConstructorOf, Bool.or_eq_true, declaresResult_iff, Option.any_eq_true]
  simp only [someReturn_iff, returnsAddress_iff]

end LayoutLint.Separator
