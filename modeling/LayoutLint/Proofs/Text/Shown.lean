import LayoutLint.Proofs.Text.Between

/-! # What a text shows

A character stands on the line with as many line feeds before it as come before the character. So a
line is blank exactly if no character that can be seen starts on it.
-/

namespace LayoutLint

namespace Text

theorem exists_mem_line_of_append {c : Char} (hc : c ≠ '\n') (pre post : List Char) :
    ∃ line, (splitLines (pre ++ c :: post))[pre.count '\n']? = some line ∧ c ∈ line := by
  induction pre with
  | nil =>
    obtain ⟨l, ls, -, hs⟩ := splitLines_cons_of_ne hc post
    exact ⟨c :: l, by simp [hs], .head _⟩
  | cons a pre ih =>
    obtain ⟨line, hline, hmem⟩ := ih
    rw [List.cons_append]
    by_cases ha : a = '\n'
    · rw [ha, splitLines_lineFeed, List.count_cons_self, List.getElem?_cons_succ]
      exact ⟨line, hline, hmem⟩
    · obtain ⟨l, ls, hs, hs'⟩ := splitLines_cons_of_ne ha (pre ++ c :: post)
      rw [hs] at hline
      rw [hs', List.count_cons_of_ne ha]
      cases hn : pre.count '\n' with
      | zero =>
        rw [hn] at hline
        cases hline
        exact ⟨a :: line, rfl, .tail _ hmem⟩
      | succ n =>
        rw [hn] at hline
        exact ⟨line, hline, hmem⟩

theorem exists_append_of_mem_line {cs line : List Char} {n : Nat} {c : Char}
    (hline : (splitLines cs)[n]? = some line) (hc : c ∈ line) :
    ∃ pre post, cs = pre ++ c :: post ∧ pre.count '\n' = n := by
  induction cs generalizing n line with
  | nil =>
    cases n with
    | zero =>
      cases hline
      cases hc
    | succ n => cases hline
  | cons a cs ih =>
    by_cases ha : a = '\n'
    · rw [ha, splitLines_lineFeed] at hline
      cases n with
      | zero =>
        cases hline
        cases hc
      | succ n =>
        obtain ⟨pre, post, rfl, rfl⟩ := ih hline hc
        exact ⟨'\n' :: pre, post, by rw [ha]; rfl, List.count_cons_self⟩
    · obtain ⟨l, ls, hs, hs'⟩ := splitLines_cons_of_ne ha cs
      rw [hs'] at hline
      have hlater : ∀ {line}, (splitLines cs)[n]? = some line → c ∈ line →
          ∃ pre post, a :: cs = pre ++ c :: post ∧ pre.count '\n' = n := by
        intro line hline hc
        obtain ⟨pre, post, rfl, rfl⟩ := ih hline hc
        exact ⟨a :: pre, post, rfl, List.count_cons_of_ne ha⟩
      cases n with
      | zero =>
        cases hline
        rcases List.mem_cons.mp hc with rfl | hc
        · exact ⟨[], cs, rfl, rfl⟩
        · exact hlater (by rw [hs]; rfl) hc
      | succ n => exact hlater (by rw [hs]; exact hline) hc

/-- A character that is not blank starts at the offset. -/
def ShowsAt (cs : List Char) (offset : Nat) : Prop :=
  ∃ pre c post, cs = pre ++ c :: post ∧ byteLength pre = offset ∧ isBlank c = false

theorem exists_append_of_mem_slice? {cs ds above below : List Char} {d : Char} {start stop : Nat}
    (hds : slice? cs start stop = some ds) (hcs : cs = above ++ d :: below)
    (hstart : start ≤ byteLength above) (hstop : byteLength above < stop) :
    ∃ pre ahead behind, above = pre ++ ahead ∧ byteLength pre = start ∧
      ds = ahead ++ d :: behind := by
  obtain ⟨pre, post, hpre, rfl⟩ := exists_append_of_slice? hds
  have hbytes := byteLength_of_slice? hds
  obtain ⟨ahead, rfl⟩ := exists_append_of_byteLength_le (hpre.symm.trans hcs) hstart
  rw [hcs, List.append_assoc, List.append_cancel_left_eq] at hpre
  rw [byteLength_append] at hstop
  obtain ⟨rest, rfl⟩ := exists_append_of_byteLength_le hpre (by omega)
  rw [List.append_assoc, List.append_cancel_left_eq] at hpre
  cases rest with
  | nil =>
    rw [List.append_nil] at hbytes
    omega
  | cons e rest =>
    obtain ⟨rfl, -⟩ := List.cons.inj hpre
    exact ⟨pre, ahead, rest, rfl, rfl, rfl⟩

theorem ne_lineFeed_of_visible {c : Char} (h : isBlank c = false) : c ≠ '\n' := by
  rintro rfl
  exact absurd h (by decide)

end Text

namespace SourceText

variable {t : SourceText}

theorem isBlankLine_iff_not_showsAt {n : Nat} (hn : n < t.lineCount) :
    t.isBlankLine n = true ↔ ∀ i, Text.ShowsAt t.chars i → t.lineAt i ≠ n := by
  obtain ⟨line, hline⟩ : ∃ line, t.line? n = some line := ⟨_, List.getElem?_eq_getElem hn⟩
  rw [isBlankLine_iff hline, Text.allBlank_iff]
  rw [line?, t.lines_eq] at hline
  constructor
  · rintro hblank i ⟨pre, c, post, hchars, rfl, hc⟩ rfl
    obtain ⟨line', hline', hmem⟩ :=
      Text.exists_mem_line_of_append (Text.ne_lineFeed_of_visible hc) pre post
    rw [lineAt_byteLength hchars, hchars, hline'] at hline
    cases hline
    exact absurd (hblank c hmem) (by simp [hc])
  · intro hnone c hc
    obtain ⟨pre, post, hchars, hcount⟩ := Text.exists_append_of_mem_line hline hc
    by_contra hblank
    refine hnone _ ⟨pre, c, post, hchars, rfl, Bool.eq_false_iff.mpr hblank⟩ ?_
    rw [lineAt_byteLength hchars, hcount]

theorem isBlankLine_eq_false_of_showsAt {i : Nat} (h : Text.ShowsAt t.chars i) :
    t.isBlankLine (t.lineAt i) = false := by
  rw [Bool.eq_false_iff]
  intro hblank
  exact (isBlankLine_iff_not_showsAt (t.lineAt_lt_lineCount i)).mp hblank i h rfl

end SourceText

end LayoutLint
