import LayoutLint.Text.Lines

/-! # Runs of blank lines

The blank lines just above a line and those just below it are counted in two ways, one going up and
one going down. Either count reaches a number exactly if the lines that many steps away and all the
lines nearer than that exist and are blank.
-/

namespace LayoutLint

theorem le_length_takeWhile_iff {α : Type} {p : α → Bool} {xs : List α} {k : Nat} :
    k ≤ (xs.takeWhile p).length ↔ ∀ i < k, xs[i]?.any p = true := by
  induction xs generalizing k with
  | nil =>
    cases k with
    | zero => simp
    | succ k =>
      constructor
      · intro h
        simp at h
      · intro h
        have hfirst := h 0 (Nat.succ_pos k)
        simp at hfirst
  | cons x xs ih =>
    cases k with
    | zero => simp
    | succ k =>
      rw [Nat.forall_lt_succ_left, List.takeWhile_cons]
      cases hx : p x with
      | false => simp [hx]
      | true => simp [hx, ih]

namespace SourceText

variable (t : SourceText)

theorem isBlankLine_eq_any (i : Nat) :
    t.isBlankLine i = t.lines[i]?.any fun l => (Text.trim l).isEmpty := by
  rw [isBlankLine, trimmedLine?, line?]
  cases t.lines[i]? <;> rfl

theorem le_blankLinesBefore_iff {k n : Nat} :
    k ≤ t.blankLinesBefore n ↔ k ≤ n ∧ ∀ i, n ≤ i + k → i < n → t.isBlankLine i = true := by
  induction n generalizing k with
  | zero => simp [blankLinesBefore]
  | succ n ih =>
    cases k with
    | zero => exact ⟨fun _ => ⟨Nat.zero_le _, by omega⟩, fun _ => Nat.zero_le _⟩
    | succ k =>
      rw [blankLinesBefore]
      constructor
      · intro h
        split at h
        case isTrue hn =>
          obtain ⟨hk, hall⟩ := ih.mp (Nat.le_of_succ_le_succ h)
          refine ⟨Nat.succ_le_succ hk, fun i hi hlt => ?_⟩
          rcases Nat.lt_succ_iff_lt_or_eq.mp hlt with hlt | rfl
          · exact hall i (by omega) hlt
          · exact hn
        case isFalse => omega
      · rintro ⟨hk, hall⟩
        rw [if_pos (hall n (by omega) (Nat.lt_succ_self n))]
        refine Nat.succ_le_succ (ih.mpr ⟨Nat.le_of_succ_le_succ hk, fun i hi hlt => ?_⟩)
        exact hall i (by omega) (Nat.lt_succ_of_lt hlt)

theorem blankLinesBefore_le (n : Nat) : t.blankLinesBefore n ≤ n :=
  (t.le_blankLinesBefore_iff.mp (Nat.le_refl _)).1

theorem le_blankLinesAfter_iff {k n : Nat} :
    k ≤ t.blankLinesAfter n ↔ ∀ i < k, t.isBlankLine (n + 1 + i) = true := by
  rw [blankLinesAfter, le_length_takeWhile_iff]
  refine forall_congr' fun i => imp_congr_right fun _ => ?_
  rw [List.getElem?_drop, isBlankLine_eq_any]

theorem blankLinesAfter_of_lastLine_le {n : Nat} (hlast : t.lastLine ≤ n) :
    t.blankLinesAfter n = 0 := by
  have hcount : t.lines.length ≤ n + 1 := by
    unfold lastLine lineCount at hlast
    omega
  rw [blankLinesAfter, List.drop_eq_nil_of_le hcount]
  rfl

end SourceText

end LayoutLint
