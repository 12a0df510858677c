import LayoutLint.Proofs.Guarded.Basic
import LayoutLint.Proofs.Text.Between
import Mathlib.Order.Bounds.Basic

/-! # The longest runs of blank lines

The count of blank lines above a line is the length of the longest run of them that ends there, for
every line number, whether or not the text has such a line. The count below a line is likewise the
longest run that starts there, but for one number: the last word has no next one, and the run stops.
-/

namespace LayoutLint.SourceText

variable (t : SourceText)

/-- Line `i` exists and has blank characters only. -/
def BlankAt (i : Nat) : Prop :=
  ∃ l, (Text.splitLines t.chars)[i]? = some l ∧ ∀ c ∈ l, Text.isBlank c = true

theorem isBlankLine_iff_blankAt {i : Nat} : t.isBlankLine i = true ↔ t.BlankAt i := by
  rw [BlankAt, ← t.lines_eq]
  constructor
  · intro h
    cases hl : t.line? i with
    | none => simp [isBlankLine, trimmedLine?, hl] at h
    | some l => exact ⟨l, hl, Text.allBlank_iff.mp ((t.isBlankLine_iff hl).mp h)⟩
  · rintro ⟨l, hl, hblank⟩
    exact (t.isBlankLine_iff hl).mpr (Text.allBlank_iff.mpr hblank)

theorem isGreatest_of_le_iff {s : Set Nat} {n : Nat} (h : ∀ k, k ≤ n ↔ k ∈ s) : IsGreatest s n :=
  ⟨(h n).mp le_rfl, fun k hk => (h k).mpr hk⟩

theorem isGreatest_blankLinesBefore (n : Nat) :
    IsGreatest {k | k ≤ n ∧ ∀ i, n - k ≤ i → i < n → t.BlankAt i} (t.blankLinesBefore n) := by
  refine isGreatest_of_le_iff fun k => ?_
  rw [le_blankLinesBefore_iff]
  refine and_congr_right fun _ => forall_congr' fun i => ?_
  rw [Nat.sub_le_iff_le_add, isBlankLine_iff_blankAt]

theorem isGreatest_blankLinesAfter (n : Nat) :
    IsGreatest {k | ∀ i, n < i → i ≤ n + k → t.BlankAt i} (t.blankLinesAfter n) := by
  refine isGreatest_of_le_iff fun k => ?_
  rw [le_blankLinesAfter_iff]
  constructor
  · intro h i hlt hle
    have hi := h (i - (n + 1)) (by omega)
    rwa [Nat.add_sub_cancel' hlt, isBlankLine_iff_blankAt] at hi
  · intro h i hi
    exact t.isBlankLine_iff_blankAt.mpr (h (n + 1 + i) (by omega) (by omega))

/-- Both runs count the longest runs of blank lines next to line `n`, also where the text has no
such line, so that nothing follows the last line. Only below the last word the run stops. -/
theorem blankLines_longest (ht : t.size < Word.count) (n : Nat) (hn : n < Word.count) :
    (∃ k, Guarded.blankLinesBefore t n = .ok k ∧
        IsGreatest {k | k ≤ n ∧ ∀ i, n - k ≤ i → i < n → t.BlankAt i} k) ∧
      (n + 1 < Word.count → ∃ k, Guarded.blankLinesAfter t n = .ok k ∧
        IsGreatest {k | ∀ i, n < i → i ≤ n + k → t.BlankAt i} k ∧ (t.lastLine ≤ n → k = 0)) ∧
      (n + 1 = Word.count → Guarded.blankLinesAfter t n = .error .overflow) := by
  refine ⟨⟨_, Guarded.blankLinesBefore_ok t hn, t.isGreatest_blankLinesBefore n⟩, fun hn => ?_,
    fun hlast => ?_⟩
  · exact ⟨_, Guarded.blankLinesAfter_ok ht hn, t.isGreatest_blankLinesAfter n,
      t.blankLinesAfter_of_lastLine_le⟩
  · obtain rfl : n = Word.count - 1 := by omega
    exact Guarded.blankLinesAfter_last t

def spacedText : SourceText := ofString "\n\na\n \nb"

theorem blankLines_longest_spacedText :
    spacedText.size < Word.count ∧
      (∃ k, Guarded.blankLinesBefore spacedText 2 = .ok k ∧
        IsGreatest {k | k ≤ 2 ∧ ∀ i, 2 - k ≤ i → i < 2 → spacedText.BlankAt i} k) ∧
      (∃ k, Guarded.blankLinesAfter spacedText 2 = .ok k ∧
        IsGreatest {k | ∀ i, 2 < i → i ≤ 2 + k → spacedText.BlankAt i} k) ∧
      Guarded.blankLinesAfter spacedText (Word.count - 2) = .ok 0 ∧
      Guarded.blankLinesAfter spacedText (Word.count - 1) = .error .overflow := by
  have hsize : spacedText.size < Word.count := by decide
  have hlast : spacedText.lastLine = 4 := by decide
  obtain ⟨habove, hbelow, -⟩ := spacedText.blankLines_longest hsize 2 (by decide)
  obtain ⟨-, hpast, -⟩ := spacedText.blankLines_longest hsize (Word.count - 2) (by decide)
  obtain ⟨-, -, hword⟩ := spacedText.blankLines_longest hsize (Word.count - 1) (by decide)
  obtain ⟨k, hk, hgreatest, -⟩ := hbelow (by decide)
  obtain ⟨n, hn, -, hzero⟩ := hpast (by decide)
  obtain rfl := hzero (by rw [hlast]; decide)
  exact ⟨hsize, habove, ⟨k, hk, hgreatest⟩, hn, hword (by decide)⟩

/-- The lines below the last word cannot be counted, although there are none. -/
theorem not_forall_blankLinesAfter_longest :
    ¬ ∀ (t : SourceText) (n : Nat), n < Word.count → ∃ k, Guarded.blankLinesAfter t n = .ok k ∧
      IsGreatest {k | ∀ i, n < i → i ≤ n + k → t.BlankAt i} k := by
  intro h
  obtain ⟨k, hk, -⟩ := h (ofString "") (Word.count - 1) (by decide)
  rw [Guarded.blankLinesAfter_last] at hk
  cases hk

end LayoutLint.SourceText
