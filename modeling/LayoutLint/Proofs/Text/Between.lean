import LayoutLint.Proofs.Text.LineEndings
import Mathlib.Data.List.TakeWhile

/-! # The text between two offsets

The line of an offset is the number of line feeds before it. So the text between two offsets that
are two lines apart is the rest of one line, a whole line and the beginning of another.
-/

namespace LayoutLint

namespace Text

theorem count_lineFeed_utf8 (cs : List Char) : (utf8 cs).count lineFeed = cs.count '\n' := by
  induction cs with
  | nil => simp
  | cons c cs ih =>
    rw [utf8_cons, List.count_append, ih]
    by_cases hc : c = '\n'
    · subst hc
      rw [utf8EncodeChar_lineFeed, List.count_singleton_self, List.count_cons_self, Nat.add_comm]
    · have hmem : lineFeed ∉ String.utf8EncodeChar c :=
        fun hmem => hc (eq_of_lineFeed_mem_utf8EncodeChar hmem)
      rw [List.count_eq_zero_of_not_mem hmem, Nat.zero_add, List.count_cons_of_ne hc]

theorem splitLines_append_lineFeed (as bs : List Char) :
    splitLines (as ++ '\n' :: bs) = splitLines as ++ splitLines bs := by
  induction as with
  | nil => simp
  | cons a as ih =>
    rw [List.cons_append]
    by_cases ha : a = '\n'
    · rw [ha, splitLines_lineFeed, splitLines_lineFeed, ih, List.cons_append]
    · obtain ⟨l, ls, hs, hs'⟩ := splitLines_cons_of_ne ha as
      obtain ⟨m, ms, hm, hm'⟩ := splitLines_cons_of_ne ha (as ++ '\n' :: bs)
      rw [ih, hs, List.cons_append, List.cons.injEq] at hm
      rw [hm', hs', ← hm.1, ← hm.2, List.cons_append]

theorem takeWhile_append_of_not_mem {as : List Char} (h : '\n' ∉ as) (bs : List Char) :
    (as ++ bs).takeWhile (· ≠ '\n') = as ++ bs.takeWhile (· ≠ '\n') := by
  apply List.takeWhile_append_of_pos
  intro a ha
  rw [decide_eq_true_eq]
  rintro rfl
  exact h ha

theorem takeWhile_of_not_mem {as : List Char} (h : '\n' ∉ as) :
    as.takeWhile (· ≠ '\n') = as := by
  have happend := takeWhile_append_of_not_mem h []
  rwa [List.takeWhile_nil, List.append_nil] at happend

theorem takeWhile_append_lineFeed {as : List Char} (h : '\n' ∉ as) (bs : List Char) :
    (as ++ '\n' :: bs).takeWhile (· ≠ '\n') = as := by
  rw [takeWhile_append_of_not_mem h, List.takeWhile_cons_of_neg (by simp), List.append_nil]

theorem splitLines_of_not_mem {l : List Char} (h : '\n' ∉ l) : splitLines l = [l] := by
  induction l with
  | nil => rfl
  | cons c l ih =>
    obtain ⟨hc, hl⟩ := List.ne_and_not_mem_of_not_mem_cons h
    obtain ⟨m, ms, hs, hs'⟩ := splitLines_cons_of_ne (Ne.symm hc) l
    rw [ih hl, List.cons.injEq] at hs
    rw [hs', ← hs.1, ← hs.2]

theorem length_splitLines (cs : List Char) : (splitLines cs).length = cs.count '\n' + 1 := by
  induction cs with
  | nil => rfl
  | cons c cs ih =>
    by_cases hc : c = '\n'
    · rw [hc, splitLines_lineFeed, List.length_cons, ih, List.count_cons_self]
    · obtain ⟨l, ls, hs, hs'⟩ := splitLines_cons_of_ne hc cs
      rw [hs', List.length_cons, List.count_cons_of_ne hc, ← ih, hs, List.length_cons]

theorem allBlank_iff {cs : List Char} : allBlank cs = true ↔ ∀ c ∈ cs, isBlank c = true :=
  List.all_eq_true

theorem allBlank_append (as bs : List Char) :
    allBlank (as ++ bs) = (allBlank as && allBlank bs) := List.all_append

theorem trim_eq_nil_iff {cs : List Char} : trim cs = [] ↔ allBlank cs = true := by
  have hsplit : cs.takeWhile isBlank ++ trimStart cs = cs := List.takeWhile_append_dropWhile
  rw [trim, trimEnd, List.reverse_eq_nil_iff, List.dropWhile_eq_nil_iff, allBlank_iff]
  constructor
  · intro h c hc
    rw [← hsplit, List.mem_append] at hc
    rcases hc with hc | hc
    · exact List.mem_takeWhile_imp hc
    · exact h c (List.mem_reverse.mpr hc)
  · intro h c hc
    refine h c ?_
    rw [← hsplit]
    exact List.mem_append_right _ (List.mem_reverse.mp hc)

theorem exists_append_of_slice? {cs ds : List Char} {start stop : Nat}
    (h : slice? cs start stop = some ds) :
    ∃ pre post, cs = pre ++ (ds ++ post) ∧ byteLength pre = start := by
  rw [slice?] at h
  split at h
  case isTrue =>
    obtain ⟨es, hdrop, htake⟩ := Option.bind_eq_some_iff.mp h
    obtain ⟨pre, rfl, hpre⟩ := exists_append_of_dropBytes hdrop
    obtain ⟨post, rfl⟩ := exists_append_of_takeBytes htake
    exact ⟨pre, post, rfl, hpre⟩
  case isFalse => cases h

theorem byteLength_of_takeBytes {n : Nat} {cs ds : List Char} (h : takeBytes n cs = some ds) :
    byteLength ds = n := by
  induction cs generalizing n ds with
  | nil =>
    cases n with
    | zero =>
      cases h
      rfl
    | succ n => cases h
  | cons c cs ih =>
    cases n with
    | zero =>
      cases h
      rfl
    | succ n =>
      rw [takeBytes] at h
      split at h
      case isTrue hle =>
        obtain ⟨es, hes, rfl⟩ := Option.map_eq_some_iff.mp h
        rw [byteLength, ih hes]
        omega
      case isFalse => cases h

theorem byteLength_of_slice? {cs ds : List Char} {start stop : Nat}
    (h : slice? cs start stop = some ds) : start + byteLength ds = stop := by
  rw [slice?] at h
  split at h
  case isTrue hle =>
    obtain ⟨es, -, htake⟩ := Option.bind_eq_some_iff.mp h
    rw [byteLength_of_takeBytes htake]
    omega
  case isFalse => cases h

theorem subset_of_slice? {cs ds es : List Char} {a b start stop : Nat}
    (hds : slice? cs a b = some ds) (hes : slice? cs start stop = some es) (ha : start ≤ a)
    (hb : b ≤ stop) : ds ⊆ es := by
  obtain ⟨pre, post, hcs, hpre⟩ := exists_append_of_slice? hes
  obtain ⟨pre', post', hcs', hpre'⟩ := exists_append_of_slice? hds
  have hstop := byteLength_of_slice? hes
  have hb' := byteLength_of_slice? hds
  obtain ⟨ahead, rfl⟩ := exists_append_of_byteLength_le (hcs.symm.trans hcs') (by omega)
  rw [hcs, List.append_assoc, List.append_cancel_left_eq, ← List.append_assoc] at hcs'
  rw [byteLength_append] at hpre'
  obtain ⟨behind, rfl⟩ := exists_append_of_byteLength_le hcs'.symm
    (by rw [byteLength_append]; omega)
  intro c hc
  exact List.mem_append_left behind (List.mem_append_right ahead hc)

theorem exists_append_of_count_eq_two {cs : List Char} (h : cs.count '\n' = 2) :
    ∃ tail mid head, cs = tail ++ '\n' :: (mid ++ '\n' :: head) ∧
      '\n' ∉ tail ∧ '\n' ∉ mid ∧ '\n' ∉ head := by
  have hcs : '\n' ∈ cs := List.count_pos_iff.mp (by omega)
  obtain ⟨tail, rest, rfl, htail⟩ := List.eq_append_cons_of_mem hcs
  rw [List.count_append, List.count_eq_zero_of_not_mem htail, List.count_cons_self] at h
  have hrest : '\n' ∈ rest := List.count_pos_iff.mp (by omega)
  obtain ⟨mid, head, rfl, hmid⟩ := List.eq_append_cons_of_mem hrest
  rw [List.count_append, List.count_eq_zero_of_not_mem hmid, List.count_cons_self] at h
  exact ⟨tail, mid, head, rfl, htail, hmid, List.count_eq_zero.mp (by omega)⟩

end Text

namespace SourceText

variable {t : SourceText} {pre post : List Char}

/-- An offset between two characters is below as many lines as there are line feeds before it. -/
theorem lineAt_byteLength (h : t.chars = pre ++ post) :
    t.lineAt (Text.byteLength pre) = pre.count '\n' := by
  have hmoved := t.moved_eq (Text.byteLength pre)
  rw [moved_eq_movedIn, Text.movedIn_eq, h, Text.utf8_append,
    List.take_left' (Text.length_utf8 pre), Text.count_lineFeed_utf8] at hmoved
  omega

/-- The line of an offset that falls between two characters is cut there in two. -/
theorem exists_line_split (h : t.chars = pre ++ post) :
    ∃ above ahead rest below, pre = above ++ ahead ∧ post = rest ++ below ∧
      '\n' ∉ ahead ++ rest ∧ (below = [] ∨ ∃ ds, below = '\n' :: ds) ∧
      t.line? (t.lineAt (Text.byteLength pre)) = some (ahead ++ rest) ∧
      Text.byteLength above = Text.startOf t.lines (t.lineAt (Text.byteLength pre)) := by
  obtain ⟨l, hl, hstart, hstop⟩ := t.lineAt_spec (Text.byteLength pre)
  have hsize : Text.byteLength pre ≤ t.size := by
    rw [t.size_eq, h, Text.byteLength_append]
    exact Nat.le_add_right _ _
  rw [Nat.min_eq_left hsize] at hstart hstop
  have hsplit := hl
  rw [line?, t.lines_eq] at hsplit
  obtain ⟨above, below, hchars, habove, hlf, hbelow⟩ :=
    Text.exists_append_of_getElem?_splitLines hsplit
  rw [← t.lines_eq] at habove
  obtain ⟨ahead, rfl⟩ := Text.exists_append_of_byteLength_le (hchars.symm.trans h) (habove ▸ hstart)
  rw [Text.startOf_succ hl, ← habove, Text.byteLength_append] at hstop
  rw [h, List.append_assoc, List.append_cancel_left_eq] at hchars
  obtain ⟨rest, rfl⟩ := Text.exists_append_of_byteLength_le hchars (by omega)
  rw [List.append_assoc, List.append_cancel_left_eq] at hchars
  exact ⟨above, ahead, rest, below, rfl, hchars, hlf, hbelow, hl, habove⟩

/-- The beginning of the line of an offset that falls between two characters. Every text without a
line feed that ends at the offset is an end of it. -/
theorem exists_line_ahead (h : t.chars = pre ++ post) :
    ∃ above ahead, pre = above ++ ahead ∧ '\n' ∉ ahead ∧
      t.lineStart? (t.lineAt (Text.byteLength pre)) = some (Text.byteLength above) ∧
      ∀ above' ahead', pre = above' ++ ahead' → '\n' ∉ ahead' → ahead' <:+ ahead := by
  obtain ⟨above, ahead, rest, below, rfl, -, hlf, -, hl, habove⟩ := exists_line_split h
  refine ⟨above, ahead, rfl, ?_, ?_, ?_⟩
  · exact fun hmem => hlf (List.mem_append_left rest hmem)
  · rw [lineStart?_eq, hl, Option.map_some, habove]
  · rintro above' ahead' heq hahead'
    have hline :
        t.lineAt (Text.byteLength above') = t.lineAt (Text.byteLength (above ++ ahead)) := by
      have habove' : t.chars = above' ++ (ahead' ++ post) := by rw [h, heq, List.append_assoc]
      rw [lineAt_byteLength habove', lineAt_byteLength h, heq, List.count_append,
        List.count_eq_zero_of_not_mem hahead', Nat.add_zero]
    obtain ⟨-, -, hle, -⟩ := t.lineAt_spec (Text.byteLength above')
    rw [hline, ← habove] at hle
    obtain ⟨mid, rfl⟩ := Text.exists_append_of_byteLength_le heq
      (Nat.le_trans hle (Nat.min_le_left _ _))
    rw [List.append_assoc, List.append_cancel_left_eq] at heq
    exact ⟨mid, heq.symm⟩

theorem exists_line_around {c : Char} (h : t.chars = pre ++ c :: post) (hc : c ≠ '\n') :
    ∃ ahead,
      t.line? (t.lineAt (Text.byteLength pre)) = some (ahead ++ c :: post.takeWhile (· ≠ '\n')) ∧
      (t.position (Text.byteLength pre)).column = Text.byteLength ahead := by
  obtain ⟨above, ahead, rest, below, rfl, hpost, hlf, hbelow, hl, habove⟩ := exists_line_split h
  refine ⟨ahead, ?_, ?_⟩
  · cases rest with
    | nil =>
      rcases hbelow with rfl | ⟨ds, rfl⟩
      · cases hpost
      · cases hpost
        exact absurd rfl hc
    | cons d rest =>
      rw [List.cons_append] at hpost
      obtain ⟨rfl, rfl⟩ := List.cons.inj hpost
      have hrest : '\n' ∉ rest := fun hmem =>
        hlf (List.mem_append_right _ (List.mem_cons_of_mem _ hmem))
      rcases hbelow with rfl | ⟨ds, rfl⟩
      · rw [hl, List.append_nil, Text.takeWhile_of_not_mem hrest]
      · rw [hl, Text.takeWhile_append_lineFeed hrest]
  · have hsize : Text.byteLength (above ++ ahead) ≤ t.size := by
      rw [t.size_eq, h, Text.byteLength_append _ (c :: post)]
      exact Nat.le_add_right _ _
    rw [position, Nat.min_eq_left hsize, lineStart?_eq, hl, Option.map_some, Option.getD_some,
      ← habove, Text.byteLength_append, Nat.add_sub_cancel_left]

theorem line?_of_append {above l below : List Char}
    (h : t.chars = above ++ '\n' :: (l ++ '\n' :: below)) (hl : '\n' ∉ l) :
    t.line? (above.count '\n' + 1) = some l := by
  rw [line?, t.lines_eq, h, Text.splitLines_append_lineFeed, Text.splitLines_append_lineFeed,
    Text.splitLines_of_not_mem hl, ← Text.length_splitLines,
    List.getElem?_append_right (Nat.le_refl _), Nat.sub_self]
  rfl

theorem isBlankLine_iff {i : Nat} {l : List Char} (hl : t.line? i = some l) :
    t.isBlankLine i = true ↔ Text.allBlank l = true := by
  rw [isBlankLine, trimmedLine?, hl, Option.map_some, Option.any_some, List.isEmpty_iff]
  exact Text.trim_eq_nil_iff

theorem exists_lines_between {c : Char} {between : List Char} (hc : c ≠ '\n')
    (h : t.chars = pre ++ c :: (between ++ post))
    (hlines : t.lineAt (Text.byteLength pre) + 2 =
      t.lineAt (Text.byteLength (pre ++ c :: between)))
    (hblank : t.isBlankLine (t.lineAt (Text.byteLength (pre ++ c :: between)) - 1) = true) :
    ∃ tail blank head, between = tail ++ '\n' :: (blank ++ '\n' :: head) ∧
      '\n' ∉ tail ∧ '\n' ∉ head ∧ Text.allBlank blank = true := by
  have hbelow : t.chars = (pre ++ c :: between) ++ post := by
    rw [h, List.append_assoc, List.cons_append]
  rw [lineAt_byteLength h, lineAt_byteLength hbelow, List.count_append,
    List.count_cons_of_ne hc] at hlines
  obtain ⟨tail, blank, head, rfl, htail, hmid, hhead⟩ :=
    Text.exists_append_of_count_eq_two (by omega : between.count '\n' = 2)
  have hline : t.line? ((pre ++ c :: tail).count '\n' + 1) = some blank := by
    have hchars : t.chars = (pre ++ c :: tail) ++ '\n' :: (blank ++ '\n' :: (head ++ post)) := by
      rw [h]
      simp only [List.append_assoc, List.cons_append]
    exact line?_of_append hchars hmid
  have hcount : (pre ++ c :: tail).count '\n' = pre.count '\n' := by
    rw [List.count_append, List.count_cons_of_ne hc, List.count_eq_zero_of_not_mem htail,
      Nat.add_zero]
  have hindex : pre.count '\n' + (tail ++ '\n' :: (blank ++ '\n' :: head)).count '\n' - 1 =
      pre.count '\n' + 1 := by omega
  rw [lineAt_byteLength hbelow, List.count_append, List.count_cons_of_ne hc, hindex, ← hcount]
    at hblank
  exact ⟨tail, blank, head, rfl, htail, hhead, (isBlankLine_iff hline).mp hblank⟩

end SourceText

end LayoutLint
