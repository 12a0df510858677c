import LayoutLint.Proofs.Text.Position

/-! # Line endings

A text may end its lines with a line feed, or with a carriage return and a line feed. The second
form has the same lines but for blanks at their ends, and each offset has its counterpart there,
at the same line and column.
-/

namespace LayoutLint

namespace Text

/-! ## Texts -/

/-- The text with a carriage return before every line feed. -/
def withReturns (cs : List Char) : List Char :=
  cs.flatMap fun c => if c = '\n' then ['\r', '\n'] else [c]

@[simp] theorem withReturns_nil : withReturns [] = [] := rfl

@[simp] theorem withReturns_lineFeed (cs : List Char) :
    withReturns ('\n' :: cs) = '\r' :: '\n' :: withReturns cs := rfl

theorem withReturns_cons_of_ne {c : Char} (h : c ≠ '\n') (cs : List Char) :
    withReturns (c :: cs) = c :: withReturns cs := by simp [withReturns, h]

theorem count_withReturns (cs : List Char) : (withReturns cs).count '\n' = cs.count '\n' := by
  induction cs with
  | nil => rfl
  | cons c cs ih =>
    by_cases hc : c = '\n'
    · subst hc
      simp [ih]
    · simp [withReturns_cons_of_ne hc, hc, ih]

theorem allBlank_withReturns (cs : List Char) : allBlank (withReturns cs) = allBlank cs := by
  have hblank : isBlank '\r' = true ∧ isBlank '\n' = true := by decide
  induction cs with
  | nil => rfl
  | cons c cs ih =>
    rw [allBlank, allBlank] at *
    by_cases hc : c = '\n'
    · subst hc
      simp [ih, hblank]
    · simp [withReturns_cons_of_ne hc, ih]

/-! ## Lines -/

def linesWithReturns : List (List Char) → List (List Char)
  | [] => []
  | [l] => [l]
  | l :: m :: ls => (l ++ ['\r']) :: linesWithReturns (m :: ls)

theorem splitLines_withReturns (cs : List Char) :
    splitLines (withReturns cs) = linesWithReturns (splitLines cs) := by
  have hreturn : '\r' ≠ '\n' := by decide
  induction cs with
  | nil => rfl
  | cons c cs ih =>
    obtain ⟨l, ls, hs⟩ := List.exists_cons_of_ne_nil (splitLines_ne_nil cs)
    by_cases hc : c = '\n'
    · subst hc
      rw [withReturns_lineFeed, splitLines_lineFeed]
      simp only [splitLines, if_neg hreturn, if_true, ih, hs]
      rfl
    · rw [withReturns_cons_of_ne hc]
      simp only [splitLines, if_neg hc, ih, hs]
      cases ls with
      | nil => rfl
      | cons m ls => rfl

@[simp] theorem length_linesWithReturns (ls : List (List Char)) :
    (linesWithReturns ls).length = ls.length := by
  fun_induction linesWithReturns ls with
  | case1 => rfl
  | case2 => rfl
  | case3 l m ls ih => simp [ih]

theorem getElem?_linesWithReturns (ls : List (List Char)) (i : Nat) :
    (linesWithReturns ls)[i]? =
      ls[i]?.map fun l => if i + 1 < ls.length then l ++ ['\r'] else l := by
  fun_induction linesWithReturns ls generalizing i with
  | case1 => rfl
  | case2 l => cases i <;> simp
  | case3 l m ls ih =>
    cases i with
    | zero => simp
    | succ i => simpa using ih i

theorem startOf_linesWithReturns {ls : List (List Char)} {i : Nat} (h : i < ls.length) :
    startOf (linesWithReturns ls) i = startOf ls i + i := by
  fun_induction linesWithReturns ls generalizing i with
  | case1 => cases h
  | case2 l =>
    obtain rfl : i = 0 := by simpa using h
    rfl
  | case3 l m ls ih =>
    cases i with
    | zero => rfl
    | succ i =>
      have hsize : byteLength ['\r'] = 1 := rfl
      simp only [startOf_cons_succ, byteLength_append, hsize, ih (Nat.lt_of_succ_lt_succ h)]
      omega

theorem trimEnd_append_return (cs : List Char) : trimEnd (cs ++ ['\r']) = trimEnd cs := by
  have hblank : isBlank '\r' = true := by decide
  simp [trimEnd, hblank]

theorem trim_append_return (cs : List Char) : trim (cs ++ ['\r']) = trim cs := by
  have hblank : isBlank '\r' = true := by decide
  rw [trim, trim, trimStart, trimStart, List.dropWhile_append]
  split
  case isTrue h =>
    rw [List.isEmpty_iff.mp h]
    simp [hblank]
  case isFalse => exact trimEnd_append_return _

/-! ## Offsets -/

/-- Where the byte `n` of a text comes to stand with carriage returns. -/
def movedIn : List Char → Nat → Nat
  | [], n => n
  | _ :: _, 0 => 0
  | c :: cs, n + 1 =>
    if c = '\n' then movedIn cs n + 2
    else if c.utf8Size ≤ n + 1 then movedIn cs (n + 1 - c.utf8Size) + c.utf8Size
    else n + 1

theorem movedIn_eq (cs : List Char) (n : Nat) :
    movedIn cs n = n + ((utf8 cs).take n).count lineFeed := by
  fun_induction movedIn cs n with
  | case1 => simp
  | case2 => simp
  | case3 cs n ih =>
    rw [ih, utf8_cons, utf8EncodeChar_lineFeed]
    simp
    omega
  | case4 c cs n hc hle ih =>
    have hm : lineFeed ∉ (String.utf8EncodeChar c).take (n + 1) :=
      fun hm => hc (eq_of_lineFeed_mem_utf8EncodeChar (List.mem_of_mem_take hm))
    rw [ih, utf8_cons, List.take_append, List.count_append, List.count_eq_zero_of_not_mem hm,
      String.length_utf8EncodeChar, Nat.succ_eq_add_one]
    omega
  | case5 c cs n hc hle =>
    have hm : lineFeed ∉ (String.utf8EncodeChar c).take (n + 1) :=
      fun hm => hc (eq_of_lineFeed_mem_utf8EncodeChar (List.mem_of_mem_take hm))
    have hrest : n + 1 - c.utf8Size = 0 := by omega
    rw [utf8_cons, List.take_append, List.count_append, List.count_eq_zero_of_not_mem hm,
      String.length_utf8EncodeChar, hrest]
    simp

theorem dropBytes_movedIn (cs : List Char) (n : Nat) :
    dropBytes (movedIn cs n) (withReturns cs) = (dropBytes n cs).map withReturns := by
  fun_induction movedIn cs n with
  | case1 n => cases n <;> rfl
  | case2 => simp [dropBytes]
  | case3 cs n ih =>
    have hsize : ('\r').utf8Size = 1 ∧ ('\n').utf8Size = 1 := by decide
    simp [dropBytes, hsize, ih]
  | case4 c cs n hc hle ih =>
    have hpos := c.utf8Size_pos
    obtain ⟨k, hk⟩ : ∃ k, c.utf8Size = k + 1 := ⟨c.utf8Size - 1, by omega⟩
    rw [withReturns_cons_of_ne hc, dropBytes, if_pos hle, ← ih, hk, ← Nat.add_assoc, dropBytes,
      if_pos (by omega), hk]
    congr 1
    omega
  | case5 c cs n hc hle => simp [withReturns_cons_of_ne hc, dropBytes, hle]

theorem takeBytes_movedIn (cs : List Char) (n : Nat) :
    takeBytes (movedIn cs n) (withReturns cs) = (takeBytes n cs).map withReturns := by
  fun_induction movedIn cs n with
  | case1 n => cases n <;> rfl
  | case2 => simp [takeBytes]
  | case3 cs n ih =>
    have hsize : ('\r').utf8Size = 1 ∧ ('\n').utf8Size = 1 := by decide
    simp [takeBytes, hsize, ih, Function.comp_def]
  | case4 c cs n hc hle ih =>
    have hpos := c.utf8Size_pos
    obtain ⟨k, hk⟩ : ∃ k, c.utf8Size = k + 1 := ⟨c.utf8Size - 1, by omega⟩
    have hsub : movedIn cs (n + 1 - (k + 1)) + k + 1 - (k + 1) = movedIn cs (n + 1 - (k + 1)) := by
      omega
    rw [hk] at ih hle
    rw [withReturns_cons_of_ne hc, takeBytes, hk, if_pos hle, ← Nat.add_assoc, takeBytes, hk,
      if_pos (by omega), hsub, ih]
    simp [Function.comp_def, withReturns_cons_of_ne hc]
  | case5 c cs n hc hle => simp [withReturns_cons_of_ne hc, takeBytes, hle]

/-- From a place between two characters on, the offsets move as in the text that starts there. -/
theorem movedIn_add {cs ds : List Char} {a : Nat} (h : dropBytes a cs = some ds) (b : Nat) :
    movedIn cs (a + b) = movedIn cs a + movedIn ds b := by
  obtain ⟨pre, rfl, rfl⟩ := exists_append_of_dropBytes h
  have hpre : (utf8 pre ++ utf8 ds).take (byteLength pre) = utf8 pre :=
    List.take_left' (length_utf8 pre)
  have hboth : (utf8 pre ++ utf8 ds).take (byteLength pre + b) = utf8 pre ++ (utf8 ds).take b := by
    rw [← length_utf8, List.take_length_add_append]
  simp only [movedIn_eq, utf8_append, hpre, hboth, List.count_append]
  omega

theorem movedIn_le_movedIn_iff (cs : List Char) {a b : Nat} :
    movedIn cs a ≤ movedIn cs b ↔ a ≤ b := by
  have hmono : ∀ {a b}, a ≤ b →
      ((utf8 cs).take a).count lineFeed ≤ ((utf8 cs).take b).count lineFeed :=
    fun h => (List.take_sublist_take_left h).count_le _
  rw [movedIn_eq, movedIn_eq]
  constructor
  · refine fun h => Nat.le_of_not_lt fun hlt => ?_
    have := hmono (Nat.le_of_lt hlt)
    omega
  · intro h
    have := hmono h
    omega

theorem slice_movedIn (cs : List Char) (a b : Nat) :
    slice (withReturns cs) (movedIn cs a) (movedIn cs b) = withReturns (slice cs a b) := by
  have hslice : slice? (withReturns cs) (movedIn cs a) (movedIn cs b) =
      (slice? cs a b).map withReturns := by
    simp only [slice?, movedIn_le_movedIn_iff, dropBytes_movedIn]
    split
    case isTrue hle =>
      cases hd : dropBytes a cs with
      | none => rfl
      | some ds =>
        have hb : movedIn cs b - movedIn cs a = movedIn ds (b - a) := by
          have hadd := movedIn_add hd (b - a)
          rw [Nat.add_sub_cancel' hle] at hadd
          omega
        simp only [Option.map_some, Option.bind_some, hb, takeBytes_movedIn]
    case isFalse => rfl
  rw [slice, slice, hslice]
  cases slice? cs a b with
  | none => rfl
  | some ds => rfl

theorem length_takeWhile_scanFrom (o m : Nat) (bs : List UInt8) :
    ((scanFrom o bs).takeWhile (· ≤ o + m)).length = (bs.take m).count lineFeed := by
  induction bs generalizing o m with
  | nil => simp [scanFrom]
  | cons b bs ih =>
    have hcons : scanFrom o (b :: bs) =
        if b = lineFeed then (o + 1) :: scanFrom (o + 1) bs else scanFrom (o + 1) bs := by
      simp only [scanFrom, List.zipIdx_cons, List.filter_cons, decide_eq_true_eq]
      split <;> rfl
    cases m with
    | zero =>
      have hpast : ∀ x ∈ scanFrom o (b :: bs), o < x := by
        intro x hx
        simp only [scanFrom, List.mem_map, List.mem_filter] at hx
        obtain ⟨⟨_, i⟩, ⟨hi, -⟩, rfl⟩ := hx
        have := (List.mem_zipIdx hi).1
        simp only
        omega
      cases hs : scanFrom o (b :: bs) with
      | nil => simp
      | cons x xs =>
        have hx := hpast x (hs ▸ List.mem_cons_self)
        simp [hx]
    | succ m =>
      have hm : o + (m + 1) = o + 1 + m := by omega
      rw [hcons, List.take_succ_cons, hm]
      split
      case isTrue hb => simp [hb, ih]
      case isFalse hb => simp [hb, ih]

end Text

namespace SourceText

variable (t : SourceText)

def withReturns : SourceText := { chars := Text.withReturns t.chars }

/-- Where an offset comes to stand in the text with carriage returns. -/
def moved (o : Nat) : Nat := o + (t.bytes.take (min o t.size)).count Text.lineFeed

theorem moved_eq_movedIn (o : Nat) : t.moved o = Text.movedIn t.chars o := by
  rw [moved, Text.movedIn_eq, bytes, ← t.length_bytes, bytes, ← List.take_eq_take_min]

theorem moved_eq (o : Nat) : t.moved o = o + t.lineAt o := by
  have hscan := Text.length_takeWhile_scanFrom 0 (min o t.size) t.bytes
  rw [Nat.zero_add] at hscan
  rw [moved, ← hscan, lineAt, lineStarts_eq_scan, List.takeWhile_cons_of_pos (by simp),
    List.length_cons, Nat.add_sub_cancel]

theorem lineAt_mono {a b : Nat} (h : a ≤ b) : t.lineAt a ≤ t.lineAt b := by
  have hle := (t.marks_position a).le_of_le (t.marks_position b) (by omega)
  rw [Position.le_iff] at hle
  change t.lineAt a < t.lineAt b ∨ t.lineAt a = t.lineAt b ∧ _ at hle
  omega

theorem moved_le_moved_iff {a b : Nat} : t.moved a ≤ t.moved b ↔ a ≤ b := by
  rw [moved_eq_movedIn, moved_eq_movedIn, Text.movedIn_le_movedIn_iff]

/-! ## Lines -/

theorem lines_withReturns : t.withReturns.lines = Text.linesWithReturns t.lines := by
  rw [t.lines_eq]
  exact Text.splitLines_withReturns t.chars

theorem lineCount_withReturns : t.withReturns.lineCount = t.lineCount := by
  rw [lineCount, lines_withReturns, Text.length_linesWithReturns, lineCount]

theorem lastLine_withReturns : t.withReturns.lastLine = t.lastLine := by
  rw [lastLine, lineCount_withReturns, lastLine]

theorem line?_withReturns (i : Nat) :
    t.withReturns.line? i =
      (t.line? i).map fun l => if i + 1 < t.lineCount then l ++ ['\r'] else l := by
  rw [line?, lines_withReturns, Text.getElem?_linesWithReturns]
  rfl

theorem trimmedLine?_withReturns (i : Nat) : t.withReturns.trimmedLine? i = t.trimmedLine? i := by
  rw [trimmedLine?, line?_withReturns, Option.map_map, trimmedLine?]
  congr 1
  funext l
  simp only [Function.comp_apply]
  split
  case isTrue => exact Text.trim_append_return l
  case isFalse => rfl

theorem isBlankLine_withReturns (i : Nat) : t.withReturns.isBlankLine i = t.isBlankLine i := by
  rw [isBlankLine, trimmedLine?_withReturns, isBlankLine]

theorem blankLinesBefore_withReturns (i : Nat) :
    t.withReturns.blankLinesBefore i = t.blankLinesBefore i := by
  induction i with
  | zero => rfl
  | succ i ih => rw [blankLinesBefore, isBlankLine_withReturns, ih, blankLinesBefore]

theorem blankLinesAfter_withReturns (i : Nat) :
    t.withReturns.blankLinesAfter i = t.blankLinesAfter i := by
  have htrim : t.withReturns.lines.map Text.trim = t.lines.map Text.trim := by
    refine List.ext_getElem? fun j => ?_
    rw [List.getElem?_map, List.getElem?_map]
    exact t.trimmedLine?_withReturns j
  have hcount : ∀ ls : List (List Char), (ls.takeWhile fun l => (Text.trim l).isEmpty).length =
      ((ls.map Text.trim).takeWhile List.isEmpty).length := by
    intro ls
    rw [List.takeWhile_map, List.length_map]
    rfl
  rw [blankLinesAfter, blankLinesAfter, hcount, hcount, List.map_drop, List.map_drop, htrim]

theorem startOf_withReturns {i : Nat} (h : i < t.lineCount) :
    Text.startOf t.withReturns.lines i = Text.startOf t.lines i + i := by
  rw [lines_withReturns, Text.startOf_linesWithReturns h]

theorem lineCount_eq : t.lineCount = t.lastLine + 1 := by
  have := t.lineCount_pos
  rw [lastLine]
  omega

theorem size_withReturns : t.withReturns.size = t.size + t.lastLine := by
  have hcount := t.lineCount_eq
  have hlt : t.lastLine < t.lineCount := by omega
  obtain ⟨l, hl⟩ := lt_lineCount_iff.mp hlt
  have hl' : t.withReturns.line? t.lastLine = some l := by
    rw [line?_withReturns, hl, Option.map_some, if_neg (by omega)]
  have hsize := t.startOf_lineCount
  have hsize' := t.withReturns.startOf_lineCount
  rw [hcount, Text.startOf_succ hl] at hsize
  rw [lineCount_withReturns, hcount, Text.startOf_succ hl', t.startOf_withReturns hlt] at hsize'
  omega

/-! ## Positions -/

theorem lineAt_le_lastLine (o : Nat) : t.lineAt o ≤ t.lastLine := by
  have := t.lineAt_lt_lineCount o
  rw [lastLine]
  omega

theorem lineAt_eq_of_startOf {o i : Nat} (hi : i < t.lineCount)
    (hle : Text.startOf t.lines i ≤ min o t.size)
    (hlt : min o t.size < Text.startOf t.lines (i + 1)) : t.lineAt o = i := by
  obtain ⟨line, hl⟩ := lt_lineCount_iff.mp hi
  rw [Text.startOf_succ hl] at hlt
  have hm : t.Marks ⟨i, min o t.size - Text.startOf t.lines i⟩ (min o t.size) :=
    marks_iff.mpr ⟨line, hl, by simp only; omega, by simp only; omega⟩
  exact (congrArg Position.line ((t.marks_iff_eq_position _ _).mp hm)).symm

theorem lineAt_of_size_le {o : Nat} (h : t.size ≤ o) : t.lineAt o = t.lastLine := by
  have hcount := t.lineCount_eq
  have hlt : t.lastLine < t.lineCount := by omega
  obtain ⟨l, hl⟩ := lt_lineCount_iff.mp hlt
  have hsize := t.startOf_lineCount
  rw [hcount, Text.startOf_succ hl] at hsize
  refine t.lineAt_eq_of_startOf hlt (by omega) ?_
  rw [Text.startOf_succ hl]
  omega

theorem lineAt_startOf {i : Nat} (h : i < t.lineCount) : t.lineAt (Text.startOf t.lines i) = i := by
  obtain ⟨line, hl⟩ := lt_lineCount_iff.mp h
  have hsucc := Text.startOf_succ hl
  have hsize := t.startOf_lineCount
  have hmono : Text.startOf t.lines (i + 1) ≤ Text.startOf t.lines t.lineCount :=
    Text.startOf_mono t.lines h
  exact t.lineAt_eq_of_startOf h (by omega) (by omega)

theorem lineAt_succ_le (o : Nat) : t.lineAt (o + 1) ≤ t.lineAt o + 1 := by
  obtain ⟨line, hl, -, hnext⟩ := t.lineAt_spec o
  rcases Nat.lt_or_ge (t.lineAt o + 1) t.lineCount with hlt | hge
  · obtain ⟨l, hl⟩ := lt_lineCount_iff.mp hlt
    obtain ⟨_, -, hstart, -⟩ := t.lineAt_spec (o + 1)
    have hsucc := Text.startOf_succ hl
    refine Nat.le_of_not_lt fun hlt => ?_
    have hmono : Text.startOf t.lines (t.lineAt o + 1 + 1) ≤
        Text.startOf t.lines (t.lineAt (o + 1)) := Text.startOf_mono t.lines hlt
    omega
  · have := t.lineAt_lt_lineCount (o + 1)
    omega

theorem min_moved (o : Nat) :
    min (t.moved o) t.withReturns.size = min o t.size + t.lineAt o := by
  have hle := t.lineAt_le_lastLine o
  rw [moved_eq, size_withReturns]
  rcases Nat.le_total o t.size with h | h
  · omega
  · rw [t.lineAt_of_size_le h]
    omega

/-- An offset keeps its line and its column. -/
theorem position_withReturns (o : Nat) : t.withReturns.position (t.moved o) = t.position o := by
  refine ((t.withReturns.marks_iff_eq_position _ _).mp ?_).symm
  obtain ⟨line, hl, hstart, hcolumn⟩ := marks_iff.mp (t.marks_position o)
  have hlt : (t.position o).line < t.lineCount := t.lineAt_lt_lineCount o
  have hline : (t.position o).line = t.lineAt o := rfl
  refine marks_iff.mpr ⟨if (t.position o).line + 1 < t.lineCount then line ++ ['\r'] else line,
    ?_, ?_, ?_⟩
  · rw [line?_withReturns, hl, Option.map_some]
  · rw [min_moved, ← hstart, t.startOf_withReturns hlt, ← hline]
    omega
  · split
    case isTrue =>
      rw [Text.byteLength_append]
      omega
    case isFalse => exact hcolumn

theorem lineAt_withReturns (o : Nat) : t.withReturns.lineAt (t.moved o) = t.lineAt o :=
  congrArg Position.line (t.position_withReturns o)

/-- The byte before an offset keeps its line, even where that byte is a line feed: what stands
before the moved offset is then the line feed as well. -/
theorem lineAt_withReturns_pred {o : Nat} (h : 0 < o) :
    t.withReturns.lineAt (t.moved o - 1) = t.lineAt (o - 1) := by
  rcases Nat.lt_or_ge t.size o with hpast | hle
  · have hsize : t.size ≤ o - 1 := by omega
    have hmoved : t.withReturns.size ≤ t.moved o - 1 := by
      rw [size_withReturns, moved_eq, t.lineAt_of_size_le (Nat.le_of_lt hpast)]
      omega
    rw [t.withReturns.lineAt_of_size_le hmoved, lastLine_withReturns, t.lineAt_of_size_le hsize]
  · obtain ⟨line, -, hstart, hnext⟩ := t.lineAt_spec (o - 1)
    have hi := t.lineAt_lt_lineCount (o - 1)
    have hmono := t.lineAt_mono (Nat.sub_le o 1)
    have hstep := t.lineAt_succ_le (o - 1)
    have hmoved := t.moved_eq o
    rw [Nat.sub_add_cancel h] at hstep
    refine t.withReturns.lineAt_eq_of_startOf (by rwa [lineCount_withReturns]) ?_ ?_
    · have hlast := t.lineAt_le_lastLine (o - 1)
      rw [t.startOf_withReturns hi, size_withReturns]
      omega
    · rcases Nat.lt_or_ge (t.lineAt (o - 1) + 1) t.lineCount with hlt | hge
      · rw [t.startOf_withReturns hlt]
        omega
      · have hcount : t.lineAt (o - 1) + 1 = t.withReturns.lineCount := by
          rw [lineCount_withReturns]
          omega
        rw [hcount, t.withReturns.startOf_lineCount]
        omega

theorem lineStart?_withReturns (i : Nat) :
    t.withReturns.lineStart? i = (t.lineStart? i).map t.moved := by
  rw [lineStart?_eq, lineStart?_eq, line?_withReturns, Option.map_map, Option.map_map]
  cases hl : t.line? i with
  | none => rfl
  | some line =>
    have hi := lt_lineCount_iff.mpr ⟨line, hl⟩
    simp only [Option.map_some, Function.comp_apply, t.startOf_withReturns hi, moved_eq,
      t.lineAt_startOf hi]

theorem slice_withReturns (a b : Nat) :
    t.withReturns.slice (t.moved a) (t.moved b) = Text.withReturns (t.slice a b) := by
  rw [moved_eq_movedIn, moved_eq_movedIn]
  exact Text.slice_movedIn t.chars a b

end SourceText

end LayoutLint
