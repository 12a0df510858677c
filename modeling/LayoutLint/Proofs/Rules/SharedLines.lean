import LayoutLint.Rules.ClosingBrace
import Mathlib.Data.List.Basic

/-! # Lines on which several blocks close

The closing braces on a line are reported together, at the least of their offsets. It is one of
them, so it stands on the line, and it does not depend on the order in which they are given. What
concerns a single block is reported at its own closing brace.
-/

namespace LayoutLint.ClosingBrace

/-- The least of two or more numbers. -/
def leastShared? (ns : List Nat) : Option Nat := if 2 ≤ ns.length then ns.min? else none

theorem mem_of_leastShared? {ns : List Nat} {m : Nat} (h : leastShared? ns = some m) : m ∈ ns := by
  unfold leastShared? at h
  split at h
  · exact (List.min?_eq_some_iff.mp h).1
  · cases h

theorem min?_eq_of_perm {ns ms : List Nat} (h : ns.Perm ms) : ns.min? = ms.min? := by
  cases hn : ns.min? with
  | none =>
    obtain rfl := List.min?_eq_none_iff.mp hn
    rw [← h.nil_eq, hn]
  | some m =>
    obtain ⟨hmem, hleast⟩ := List.min?_eq_some_iff.mp hn
    refine (List.min?_eq_some_iff.mpr ⟨h.mem_iff.mp hmem, fun n hn => ?_⟩).symm
    exact hleast n (h.mem_iff.mpr hn)

theorem leastShared?_eq_of_perm {ns ms : List Nat} (h : ns.Perm ms) :
    leastShared? ns = leastShared? ms := by
  unfold leastShared?
  rw [h.length_eq, min?_eq_of_perm h]

variable (t : SourceText)

def closings (blocks : List Block) (line : Nat) : List Nat :=
  (blocks.map Block.rbrace).filter fun offset => t.lineAt offset = line

def sharedFinding (offset : Nat) : Finding :=
  ⟨braceSpan offset, multipleCloses, some "Put each `\x7d` on its own line"⟩

theorem multipleFindings_eq (blocks : List Block) :
    multipleFindings t blocks = (List.range t.lineCount).filterMap fun line =>
      (leastShared? (closings t blocks line)).map sharedFinding := by
  refine List.filterMap_congr fun line _ => ?_
  have hcloses : closesOn (blocks.map fun b => (t.lineAt b.rbrace, b.rbrace)) line =
      closings t blocks line := by
    simp only [closesOn, closings, List.filter_map, List.map_map]
    rfl
  simp only [hcloses]
  match closings t blocks line with
  | [] => rfl
  | [_] => rfl
  | first :: second :: rest =>
    have hlength : 2 ≤ (first :: second :: rest).length := Nat.le_add_left 2 rest.length
    rw [leastShared?, if_pos hlength, List.min?_cons']
    rfl

variable {t}

theorem message_of_mem_multipleFindings {blocks : List Block} {f : Finding}
    (hf : f ∈ multipleFindings t blocks) : f.message = multipleCloses := by
  rw [multipleFindings_eq] at hf
  obtain ⟨line, -, hline⟩ := List.mem_filterMap.mp hf
  obtain ⟨offset, -, rfl⟩ := Option.map_eq_some_iff.mp hline
  rfl

theorem lineAt_of_leastShared? {blocks : List Block} {line offset : Nat}
    (h : leastShared? (closings t blocks line) = some offset) : t.lineAt offset = line :=
  of_decide_eq_true (List.mem_filter.mp (mem_of_leastShared? h)).2

theorem of_mem_blockFindings {b : Block} {f : Finding} (hf : f ∈ blockFindings t b) :
    f.span = braceSpan b.rbrace ∧ (f.message = blankBefore ∨ f.message = missingAfter) := by
  rw [blockFindings, List.mem_append] at hf
  rcases hf with hf | hf <;> split at hf
  · rw [List.mem_singleton.mp hf]
    exact ⟨rfl, .inl rfl⟩
  · cases hf
  · rw [List.mem_singleton.mp hf]
    exact ⟨rfl, .inr rfl⟩
  · cases hf

end LayoutLint.ClosingBrace
