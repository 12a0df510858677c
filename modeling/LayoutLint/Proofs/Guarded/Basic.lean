import LayoutLint.Guarded.Basic
import LayoutLint.Proofs.Text.BlankRuns
import LayoutLint.Proofs.Text.Position

/-! # Steps that do not stop

When a sum is a word, a slice falls between two characters and a text is in memory, the step gives
what it should.
-/

namespace LayoutLint.Guarded

variable {α β : Type}

@[simp] theorem ok_bind (a : α) (f : α → Run β) : (Except.ok a >>= f) = f a := rfl

@[simp] theorem pure_eq_ok (a : α) : (pure a : Run α) = .ok a := rfl

/-! ## Words -/

theorem add_ok {m n : Nat} (h : m + n < Word.count) : add m n = .ok (m + n) := if_pos h

theorem sub_ok {m n : Nat} (h : n ≤ m) : sub m n = .ok (m - n) := if_pos h

theorem add_ok_of_le_capacity {m n : Nat} (hm : m ≤ capacity) (hn : n ≤ 2) :
    add m n = .ok (m + n) := by
  refine add_ok ?_
  unfold capacity Word.count at *
  omega

theorem tally_ok {xs : List α} (h : xs.length < Word.count) : tally xs = .ok xs.length := by
  suffices hfrom : ∀ n, n + xs.length < Word.count →
      xs.foldlM (fun n _ => add n 1) n = .ok (n + xs.length) by
    simpa [tally] using hfrom 0 (by omega)
  clear h
  induction xs with
  | nil => exact fun n _ => rfl
  | cons x xs ih =>
    intro n hn
    rw [List.length_cons] at hn
    rw [List.foldlM_cons, add_ok (by omega), ok_bind, ih (n + 1) (by omega), List.length_cons]
    congr 1
    omega

/-! ## Lists -/

theorem get_ok {xs : List α} {i : Nat} {x : α} (h : xs[i]? = some x) : get xs i = .ok x := by
  rw [get, h]

theorem dropFirst_ok {xs : List α} {i : Nat} (h : i ≤ xs.length) :
    dropFirst xs i = .ok (xs.drop i) := if_pos h

theorem mapM_ok {f : α → Run β} {g : α → β} {xs : List α} (h : ∀ x ∈ xs, f x = .ok (g x)) :
    xs.mapM f = .ok (xs.map g) := by
  induction xs with
  | nil => rfl
  | cons x xs ih =>
    rw [List.mapM_cons, h x List.mem_cons_self,
      ih fun y hy => h y (List.mem_cons_of_mem x hy)]
    rfl

theorem filter_ok {p : α → Run Bool} {q : α → Bool} {xs : List α} (h : ∀ x ∈ xs, p x = .ok (q x)) :
    filter p xs = .ok (xs.filter q) := by
  induction xs with
  | nil => rfl
  | cons x xs ih =>
    rw [filter, h x List.mem_cons_self, ok_bind, ih fun y hy => h y (List.mem_cons_of_mem x hy)]
    cases hq : q x <;> simp [hq]

theorem any_ok {p : α → Run Bool} {q : α → Bool} {xs : List α} (h : ∀ x ∈ xs, p x = .ok (q x)) :
    any p xs = .ok (xs.any q) := by
  induction xs with
  | nil => rfl
  | cons x xs ih =>
    rw [any, h x List.mem_cons_self, ok_bind, ih fun y hy => h y (List.mem_cons_of_mem x hy)]
    cases hq : q x <;> simp [hq]

/-! ## Slices -/

theorem sliceTo_byteLength (cs ds : List Char) :
    sliceTo (cs ++ ds) (Text.byteLength cs) = .ok cs := by
  rw [sliceTo, Text.takeBytes_byteLength]

theorem sliceFrom_byteLength (cs ds : List Char) :
    sliceFrom (cs ++ ds) (Text.byteLength cs) = .ok ds := by
  rw [sliceFrom, Text.dropBytes_byteLength]

/-! ## Positions -/

variable (t : SourceText)

/-- The table has the line of every offset, and the line starts no later. -/
theorem position_ok (o : Nat) : position t o = .ok (t.position o) := by
  obtain ⟨line, hl, hle, -⟩ := t.lineAt_spec o
  have hs : t.lineStarts[t.lineAt o]? = some (Text.startOf t.lines (t.lineAt o)) := by
    rw [← SourceText.lineStart?, t.lineStart?_eq, hl]
    rfl
  have hcolumn : (t.position o).column = min o t.size - Text.startOf t.lines (t.lineAt o) := by
    rw [SourceText.position, SourceText.lineStart?, hs]
    rfl
  have hline : (t.lineStarts.takeWhile (· ≤ min o t.size)).length - 1 = t.lineAt o := rfl
  simp only [position, hline, get_ok hs, ok_bind, sub_ok hle, ← hcolumn, pure_eq_ok]
  rfl

theorem lineOf_ok (o : Nat) : lineOf t o = .ok (t.lineAt o) := by
  rw [lineOf, position_ok]
  rfl

theorem blankLinesBefore_ok {line : Nat} (h : line < Word.count) :
    blankLinesBefore t line = .ok (t.blankLinesBefore line) := by
  induction line with
  | zero => rfl
  | succ line ih =>
    have hle := t.blankLinesBefore_le line
    rw [blankLinesBefore, SourceText.blankLinesBefore]
    split
    · rw [ih (by omega), ok_bind, add_ok (by omega)]
    · rfl

theorem blankLinesAfter_last : blankLinesAfter t (Word.count - 1) = .error .overflow := rfl

variable {t}

theorem blankLinesAfter_ok (ht : t.size < Word.count) {line : Nat} (h : line + 1 < Word.count) :
    blankLinesAfter t line = .ok (t.blankLinesAfter line) := by
  have hrun := (List.takeWhile_sublist
    (l := t.lines.drop (line + 1)) fun l => (Text.trim l).isEmpty).length_le
  have hlines : t.lines.length ≤ t.size + 1 := t.lineCount_le
  rw [List.length_drop] at hrun
  rw [blankLinesAfter, add_ok h, ok_bind, tally_ok (by omega)]
  rfl

variable (ht : t.size < capacity)
include ht

theorem size_lt_count : t.size < Word.count := by
  unfold capacity at ht
  omega

theorem lineAt_le_capacity (o : Nat) : t.lineAt o ≤ capacity := by
  have hlt := t.lineAt_lt_lineCount o
  have hle := t.lineCount_le
  omega

theorem add_lineAt_ok (o : Nat) {n : Nat} (hn : n ≤ 2) :
    add (t.lineAt o) n = .ok (t.lineAt o + n) :=
  add_ok_of_le_capacity (lineAt_le_capacity ht o) hn

theorem add_column_ok (o : Nat) :
    add (t.position o).column 1 = .ok ((t.position o).column + 1) := by
  have hcolumn : (t.position o).column ≤ capacity := by
    simp only [SourceText.position]
    omega
  exact add_ok_of_le_capacity hcolumn (by decide)

theorem location_ok (file : String) (s : Span) : location t file s = .ok (t.location file s) := by
  have hline : add (t.position s.start).line 1 = .ok ((t.position s.start).line + 1) :=
    add_lineAt_ok ht s.start (by decide)
  rw [location, position_ok, ok_bind, hline, ok_bind, add_column_ok ht]
  rfl

end LayoutLint.Guarded
