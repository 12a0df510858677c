import LayoutLint.Text.Lines
import LayoutLint.Violation
import LayoutLint.Word

/-! # Runs that can stop

Offsets, lines and counts are words, and texts are sliced by bytes. A run stops at a sum that is
no word, at a difference below zero, at an index past the end of a list, at a slice that cuts a
character, and at a text that memory cannot hold.
-/

namespace LayoutLint.Guarded

inductive Fault where
  | overflow
  | underflow
  | outOfRange
  /-- An end of a slice falls inside a character or past the end of the text. -/
  | offBoundary
  | capacity
  deriving DecidableEq, Repr

abbrev Run (α : Type) := Except Fault α

/-- The bytes of memory that one text or list can take are fewer than these. -/
def capacity : Nat := Word.count / 2

variable {α β : Type}

theorem bind_eq_ok {x : Run α} {f : α → Run β} {b : β} (h : (x >>= f) = .ok b) :
    ∃ a, x = .ok a ∧ f a = .ok b := by
  cases x with
  | error e => cases h
  | ok a => exact ⟨a, rfl, h⟩

/-! ## Words -/

def add (m n : Nat) : Run Nat := if m + n < Word.count then .ok (m + n) else .error .overflow

def sub (m n : Nat) : Run Nat := if n ≤ m then .ok (m - n) else .error .underflow

theorem add_eq_ok {m n k : Nat} (h : add m n = .ok k) : k = m + n := by
  rw [add] at h
  split at h
  · exact (Except.ok.inj h).symm
  · cases h

/-- The number of elements, counted one by one. -/
def tally (xs : List α) : Run Nat := xs.foldlM (fun n _ => add n 1) 0

/-! ## Lists -/

def get (xs : List α) (i : Nat) : Run α :=
  match xs[i]? with
  | some x => .ok x
  | none => .error .outOfRange

def dropFirst (xs : List α) (i : Nat) : Run (List α) :=
  if i ≤ xs.length then .ok (xs.drop i) else .error .outOfRange

def filter (p : α → Run Bool) : List α → Run (List α)
  | [] => return []
  | x :: xs => do
    if ← p x then return x :: (← filter p xs) else filter p xs

def any (p : α → Run Bool) : List α → Run Bool
  | [] => return false
  | x :: xs => do
    if ← p x then return true else any p xs

/-! ## Slices -/

def sliceTo (cs : List Char) (n : Nat) : Run (List Char) :=
  match Text.takeBytes n cs with
  | some ds => .ok ds
  | none => .error .offBoundary

def sliceFrom (cs : List Char) (n : Nat) : Run (List Char) :=
  match Text.dropBytes n cs with
  | some ds => .ok ds
  | none => .error .offBoundary

theorem length_le_of_sliceFrom {cs ds : List Char} {n : Nat} (h : sliceFrom cs n = .ok ds) :
    ds.length ≤ cs.length ∧ (0 < n → ds.length < cs.length) := by
  rw [sliceFrom] at h
  split at h
  case h_1 hd =>
    cases h
    obtain ⟨pre, rfl, hp⟩ := Text.exists_append_of_dropBytes hd
    rw [List.length_append]
    refine ⟨by omega, fun hn => ?_⟩
    have hne : pre ≠ [] := by
      rintro rfl
      simp [Text.byteLength] at hp
      omega
    have := List.length_pos_iff.mpr hne
    omega
  case h_2 => cases h

/-! ## Positions and lines -/

variable (t : SourceText)

def position (o : Nat) : Run Position := do
  let offset := min o t.size
  let line := (t.lineStarts.takeWhile (· ≤ offset)).length - 1
  let start ← get t.lineStarts line
  return ⟨line, ← sub offset start⟩

def lineOf (o : Nat) : Run Nat := do
  return (← position t o).line

def location (file : String) (s : Span) : Run Location := do
  let start ← position t s.start
  return ⟨file, ← add start.line 1, ← add start.column 1, s.start, s.length⟩

def blankLinesBefore : Nat → Run Nat
  | 0 => return 0
  | line + 1 => do
    if t.isBlankLine line then add (← blankLinesBefore line) 1 else return 0

def blankLinesAfter (line : Nat) : Run Nat := do
  let below ← add line 1
  tally ((t.lines.drop below).takeWhile fun l => (Text.trim l).isEmpty)

end LayoutLint.Guarded
