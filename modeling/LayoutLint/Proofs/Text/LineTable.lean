import LayoutLint.Text.Lines

/-! # The two tables of lines

A text is cut into lines at its line feeds, and the table of line starts counts the bytes before
each line. The start of a line is therefore the number of bytes in the lines above it, each with
its line feed.
-/

namespace LayoutLint.Text

/-! ## Bytes -/

def utf8 (cs : List Char) : List UInt8 := (String.ofList cs).toUTF8.data.toList

def lineFeed : UInt8 := 10

@[simp] theorem utf8_nil : utf8 [] = [] := by simp [utf8]

@[simp] theorem utf8_cons (c : Char) (cs : List Char) :
    utf8 (c :: cs) = String.utf8EncodeChar c ++ utf8 cs := by
  simp [utf8, List.utf8Encode]

@[simp] theorem utf8_append (cs ds : List Char) : utf8 (cs ++ ds) = utf8 cs ++ utf8 ds := by
  induction cs with
  | nil => simp
  | cons c cs ih => simp [ih]

@[simp] theorem length_utf8 (cs : List Char) : (utf8 cs).length = byteLength cs := by
  induction cs with
  | nil => simp [byteLength]
  | cons c cs ih => simp [byteLength, ih]

@[simp] theorem byteLength_append (cs ds : List Char) :
    byteLength (cs ++ ds) = byteLength cs + byteLength ds := by
  rw [← length_utf8, utf8_append, List.length_append, length_utf8, length_utf8]

theorem eq_nil_of_byteLength_eq_zero {cs : List Char} (h : byteLength cs = 0) : cs = [] := by
  cases cs with
  | nil => rfl
  | cons c cs =>
    have := c.utf8Size_pos
    simp only [byteLength] at h
    omega

theorem exists_byteLength_cons (c : Char) (cs : List Char) :
    ∃ n, byteLength (c :: cs) = n + 1 ∧ c.utf8Size ≤ n + 1 ∧
      n + 1 - c.utf8Size = byteLength cs := by
  have := c.utf8Size_pos
  refine ⟨c.utf8Size - 1 + byteLength cs, ?_, ?_, ?_⟩
  · rw [byteLength]
    omega
  · omega
  · omega

theorem takeBytes_byteLength (cs ds : List Char) :
    takeBytes (byteLength cs) (cs ++ ds) = some cs := by
  induction cs with
  | nil => cases ds <;> rfl
  | cons c cs ih =>
    obtain ⟨n, hn, hle, hrest⟩ := exists_byteLength_cons c cs
    rw [hn, List.cons_append, takeBytes, if_pos hle, hrest, ih]
    rfl

theorem dropBytes_byteLength (cs ds : List Char) :
    dropBytes (byteLength cs) (cs ++ ds) = some ds := by
  induction cs with
  | nil => cases ds <;> rfl
  | cons c cs ih =>
    obtain ⟨n, hn, hle, hrest⟩ := exists_byteLength_cons c cs
    rw [hn, List.cons_append, dropBytes, if_pos hle, hrest, ih]

theorem slice?_append (pre mid post : List Char) :
    slice? (pre ++ (mid ++ post)) (byteLength pre) (byteLength pre + byteLength mid) =
      some mid := by
  rw [slice?, if_pos (Nat.le_add_right _ _), dropBytes_byteLength, Option.bind_some,
    Nat.add_sub_cancel_left, takeBytes_byteLength]

theorem exists_append_of_byteLength_le {as bs cs ds : List Char} (h : as ++ bs = cs ++ ds)
    (hle : byteLength as ≤ byteLength cs) : ∃ mid, cs = as ++ mid := by
  rcases List.append_eq_append_iff.mp h with ⟨mid, rfl, -⟩ | ⟨mid, rfl, -⟩
  · exact ⟨mid, rfl⟩
  · rw [byteLength_append] at hle
    obtain rfl : mid = [] := eq_nil_of_byteLength_eq_zero (by omega)
    exact ⟨[], by rw [List.append_nil, List.append_nil]⟩

theorem length_le_byteLength (cs : List Char) : cs.length ≤ byteLength cs := by
  induction cs with
  | nil => exact Nat.le.refl
  | cons c cs ih =>
    have := c.utf8Size_pos
    rw [List.length_cons, byteLength]
    omega

theorem byteLength_take_add_drop (cs : List Char) (i : Nat) :
    byteLength (cs.take i) + byteLength (cs.drop i) = byteLength cs := by
  rw [← byteLength_append, List.take_append_drop]

theorem byteLength_take_lt {cs : List Char} {i j : Nat} (hij : i < j) (hj : j ≤ cs.length) :
    byteLength (cs.take i) < byteLength (cs.take j) := by
  have hsplit : cs.take j = cs.take i ++ (cs.drop i).take (j - i) := by
    rw [← List.take_add]
    congr 1
    omega
  have hlen : ((cs.drop i).take (j - i)).length = j - i := by
    rw [List.length_take, List.length_drop]
    omega
  have hpos := length_le_byteLength ((cs.drop i).take (j - i))
  rw [hsplit, byteLength_append]
  omega

theorem byteLength_take_lt_iff {cs : List Char} {i j : Nat} (hi : i ≤ cs.length)
    (hj : j ≤ cs.length) :
    byteLength (cs.take i) < byteLength (cs.take j) ↔ i < j := by
  refine ⟨fun h => ?_, fun h => byteLength_take_lt h hj⟩
  rcases Nat.lt_trichotomy i j with hlt | rfl | hgt
  · exact hlt
  · exact absurd h (Nat.lt_irrefl _)
  · exact absurd (byteLength_take_lt hgt hi) (Nat.lt_asymm h)

theorem exists_append_of_takeBytes {n : Nat} {cs ds : List Char} (h : takeBytes n cs = some ds) :
    ∃ post, cs = ds ++ post := by
  induction cs generalizing n ds with
  | nil =>
    cases n with
    | zero => exact ⟨[], by simpa [takeBytes] using h⟩
    | succ n => simp [takeBytes] at h
  | cons c cs ih =>
    cases n with
    | zero =>
      cases h
      exact ⟨c :: cs, rfl⟩
    | succ n =>
      rw [takeBytes] at h
      split at h
      case isTrue =>
        obtain ⟨es, hes, rfl⟩ := Option.map_eq_some_iff.mp h
        obtain ⟨post, rfl⟩ := ih hes
        exact ⟨post, rfl⟩
      case isFalse => cases h

theorem length_slice_le (cs : List Char) (start stop : Nat) :
    (slice cs start stop).length ≤ cs.length := by
  rw [slice]
  cases h : slice? cs start stop with
  | none => exact Nat.zero_le _
  | some ds =>
    rw [slice?] at h
    split at h
    case isTrue =>
      obtain ⟨es, hdrop, htake⟩ := Option.bind_eq_some_iff.mp h
      obtain ⟨pre, rfl, -⟩ := exists_append_of_dropBytes hdrop
      obtain ⟨post, rfl⟩ := exists_append_of_takeBytes htake
      simp only [Option.getD_some, List.length_append]
      omega
    case isFalse => cases h

theorem mod_eq_of_lineFeed_eq {n : Nat} (h : lineFeed = UInt8.ofNat n) : n % 256 = 10 := by
  have := congrArg UInt8.toNat h
  simpa [lineFeed] using this.symm

/-- A line feed byte is never part of a longer character. -/
theorem eq_of_lineFeed_mem_utf8EncodeChar {c : Char} (h : lineFeed ∈ String.utf8EncodeChar c) :
    c = '\n' := by
  have hc : c.val.toNat = 10 := by
    revert h
    -- from the second case on, every byte is 128 or more
    fun_cases String.utf8EncodeChar c with
    | case1 =>
      intro h
      have := mod_eq_of_lineFeed_eq (List.mem_singleton.mp h)
      grind
    | case2 =>
      intro h
      simp only [List.mem_cons, List.not_mem_nil, or_false] at h
      rcases h with h | h <;> have := mod_eq_of_lineFeed_eq h <;> omega
    | case3 =>
      intro h
      simp only [List.mem_cons, List.not_mem_nil, or_false] at h
      rcases h with h | h | h <;> have := mod_eq_of_lineFeed_eq h <;> omega
    | case4 =>
      intro h
      simp only [List.mem_cons, List.not_mem_nil, or_false] at h
      rcases h with h | h | h | h <;> have := mod_eq_of_lineFeed_eq h <;> omega
  exact Char.ext (UInt32.toNat_inj.mp hc)

theorem utf8EncodeChar_lineFeed : String.utf8EncodeChar '\n' = [lineFeed] := by decide

theorem lineFeed_not_mem_utf8 {cs : List Char} (h : '\n' ∉ cs) : lineFeed ∉ utf8 cs := by
  induction cs with
  | nil => simp
  | cons c cs ih =>
    obtain ⟨hc, hcs⟩ := List.ne_and_not_mem_of_not_mem_cons h
    rw [utf8_cons, List.mem_append, not_or]
    exact ⟨fun hm => hc (eq_of_lineFeed_mem_utf8EncodeChar hm).symm, ih hcs⟩

/-! ## Lines -/

@[simp] theorem splitLines_nil : splitLines [] = [[]] := rfl

@[simp] theorem splitLines_lineFeed (cs : List Char) :
    splitLines ('\n' :: cs) = [] :: splitLines cs := by simp [splitLines]

theorem splitLines_cons_of_ne {c : Char} (h : c ≠ '\n') (cs : List Char) :
    ∃ l ls, splitLines cs = l :: ls ∧ splitLines (c :: cs) = (c :: l) :: ls := by
  obtain ⟨l, ls, hs⟩ := List.exists_cons_of_ne_nil (splitLines_ne_nil cs)
  exact ⟨l, ls, hs, by simp [splitLines, h, hs]⟩

/-- The bytes of the first `i` lines with their line feeds. -/
def startOf : List (List Char) → Nat → Nat
  | [], _ => 0
  | _ :: _, 0 => 0
  | l :: ls, i + 1 => byteLength l + 1 + startOf ls i

@[simp] theorem startOf_nil (i : Nat) : startOf [] i = 0 := rfl

@[simp] theorem startOf_zero (ls : List (List Char)) : startOf ls 0 = 0 := by
  cases ls with
  | nil => rfl
  | cons l ls => rfl

@[simp] theorem startOf_cons_succ (l : List Char) (ls : List (List Char)) (i : Nat) :
    startOf (l :: ls) (i + 1) = byteLength l + 1 + startOf ls i := rfl

theorem startOf_succ {ls : List (List Char)} {i : Nat} {l : List Char} (h : ls[i]? = some l) :
    startOf ls (i + 1) = startOf ls i + byteLength l + 1 := by
  induction ls generalizing i with
  | nil => cases h
  | cons m ls ih =>
    cases i with
    | zero =>
      cases h
      simp
    | succ i =>
      rw [startOf_cons_succ, startOf_cons_succ, ih h]
      omega

theorem startOf_mono (ls : List (List Char)) {i j : Nat} (h : i ≤ j) :
    startOf ls i ≤ startOf ls j := by
  induction ls generalizing i j with
  | nil => simp [startOf]
  | cons l ls ih =>
    cases i with
    | zero => simp
    | succ i =>
      obtain ⟨j, rfl⟩ : ∃ j', j = j' + 1 := ⟨j - 1, by omega⟩
      have := ih (Nat.le_of_succ_le_succ h)
      simp only [startOf_cons_succ]
      omega

theorem le_startOf {ls : List (List Char)} {i : Nat} (h : i ≤ ls.length) : i ≤ startOf ls i := by
  induction i with
  | zero => exact Nat.zero_le _
  | succ i ih =>
    rw [startOf_succ (List.getElem?_eq_getElem h)]
    have := ih (Nat.le_of_succ_le h)
    omega

theorem startOf_splitLines_length (cs : List Char) :
    startOf (splitLines cs) (splitLines cs).length = byteLength cs + 1 := by
  induction cs with
  | nil => simp [startOf, byteLength]
  | cons c cs ih =>
    by_cases hc : c = '\n'
    · subst hc
      simp only [splitLines_lineFeed, List.length_cons, startOf_cons_succ, ih, byteLength]
      have : ('\n').utf8Size = 1 := by decide
      omega
    · obtain ⟨l, ls, hs, hs'⟩ := splitLines_cons_of_ne hc cs
      rw [hs, List.length_cons, startOf_cons_succ] at ih
      rw [hs', List.length_cons, startOf_cons_succ, byteLength, byteLength]
      omega

/-- A line of a text stands between two pieces of it, starts where it should, holds no line feed,
and ends at a line feed or at the end. -/
theorem exists_append_of_getElem?_splitLines {cs : List Char} {i : Nat} {l : List Char}
    (h : (splitLines cs)[i]? = some l) :
    ∃ above below, cs = above ++ (l ++ below) ∧ byteLength above = startOf (splitLines cs) i ∧
      '\n' ∉ l ∧ (below = [] ∨ ∃ rest, below = '\n' :: rest) := by
  induction cs generalizing i l with
  | nil =>
    obtain ⟨rfl, rfl⟩ : i = 0 ∧ l = [] := by
      cases i <;> simp_all
    exact ⟨[], [], rfl, rfl, List.not_mem_nil, .inl rfl⟩
  | cons c cs ih =>
    by_cases hc : c = '\n'
    · subst hc
      rw [splitLines_lineFeed] at h ⊢
      cases i with
      | zero =>
        obtain rfl : [] = l := by simpa using h
        exact ⟨[], '\n' :: cs, rfl, rfl, List.not_mem_nil, .inr ⟨cs, rfl⟩⟩
      | succ i =>
        obtain ⟨above, below, rfl, ha, hl, hb⟩ := ih (by simpa using h)
        refine ⟨'\n' :: above, below, rfl, ?_, hl, hb⟩
        rw [startOf_cons_succ, ← ha, byteLength, byteLength]
        rfl
    · obtain ⟨l', ls, hs, hs'⟩ := splitLines_cons_of_ne hc cs
      rw [hs'] at h ⊢
      cases i with
      | zero =>
        obtain rfl : c :: l' = l := by simpa using h
        obtain ⟨above, below, hcs, ha, hl, hb⟩ := ih (i := 0) (by rw [hs]; rfl)
        obtain rfl := eq_nil_of_byteLength_eq_zero (ha.trans (startOf_zero _))
        refine ⟨[], below, by simp [hcs], rfl, ?_, hb⟩
        exact List.not_mem_cons_of_ne_of_not_mem (Ne.symm hc) hl
      | succ i =>
        obtain ⟨above, below, hcs, ha, hl, hb⟩ := ih (i := i + 1) (by rw [hs]; simpa using h)
        refine ⟨c :: above, below, by simp [hcs], ?_, hl, hb⟩
        rw [hs, startOf_cons_succ] at ha
        rw [startOf_cons_succ, byteLength, byteLength]
        omega

/-! ## Line starts -/

/-- The starts of lines when the first starts at offset `o`. -/
def startsFrom (o : Nat) : List (List Char) → List Nat
  | [] => []
  | l :: ls => o :: startsFrom (o + byteLength l + 1) ls

@[simp] theorem length_startsFrom (o : Nat) (ls : List (List Char)) :
    (startsFrom o ls).length = ls.length := by
  induction ls generalizing o with
  | nil => rfl
  | cons l ls ih => simp [startsFrom, ih]

theorem getElem?_startsFrom (o : Nat) (ls : List (List Char)) (i : Nat) :
    (startsFrom o ls)[i]? = ls[i]?.map fun _ => o + startOf ls i := by
  induction ls generalizing o i with
  | nil => rfl
  | cons l ls ih =>
    cases i with
    | zero => rfl
    | succ i =>
      have ho : o + byteLength l + 1 + startOf ls i = o + (byteLength l + 1 + startOf ls i) := by
        omega
      simp only [startsFrom, List.getElem?_cons_succ, ih, startOf_cons_succ, ho]

theorem cons_startsAfter (o : Nat) (cs : List Char) :
    o :: startsAfter o cs = startsFrom o (splitLines cs) := by
  induction cs generalizing o with
  | nil => rfl
  | cons c cs ih =>
    by_cases hc : c = '\n'
    · subst hc
      simp only [startsAfter, if_true, splitLines_lineFeed, startsFrom, byteLength, ih]
    · obtain ⟨l, ls, hs, hs'⟩ := splitLines_cons_of_ne hc cs
      have hi := ih (o + c.utf8Size)
      rw [hs, startsFrom, List.cons.injEq] at hi
      rw [startsAfter, if_neg hc, hs', startsFrom, hi.2, byteLength, Nat.add_assoc o]

theorem lineStarts_eq_startsFrom (cs : List Char) :
    lineStarts cs = startsFrom 0 (splitLines cs) := cons_startsAfter 0 cs

/-- The offsets after the line feed bytes, when the bytes are counted from `o`. -/
def scanFrom (o : Nat) (bytes : List UInt8) : List Nat :=
  ((bytes.zipIdx o).filter (·.1 = lineFeed)).map (·.2 + 1)

theorem scanFrom_append (o : Nat) (bs bs' : List UInt8) :
    scanFrom o (bs ++ bs') = scanFrom o bs ++ scanFrom (o + bs.length) bs' := by
  simp [scanFrom, List.zipIdx_append]

theorem scanFrom_of_not_mem (o : Nat) {bs : List UInt8} (h : lineFeed ∉ bs) :
    scanFrom o bs = [] := by
  simp only [scanFrom, List.map_eq_nil_iff, List.filter_eq_nil_iff, decide_eq_true_eq]
  rintro ⟨b, j⟩ hb rfl
  exact h (List.fst_mem_of_mem_zipIdx hb)

/-- Line starts follow the line feeds of the bytes as they do those of the characters. -/
theorem startsAfter_eq_scanFrom (o : Nat) (cs : List Char) :
    startsAfter o cs = scanFrom o (utf8 cs) := by
  induction cs generalizing o with
  | nil => simp [startsAfter, scanFrom]
  | cons c cs ih =>
    rw [utf8_cons, scanFrom_append, String.length_utf8EncodeChar, ← ih]
    by_cases hc : c = '\n'
    · subst hc
      rw [utf8EncodeChar_lineFeed, startsAfter, if_pos rfl]
      rfl
    · have hm : lineFeed ∉ String.utf8EncodeChar c :=
        fun hm => hc (eq_of_lineFeed_mem_utf8EncodeChar hm)
      rw [scanFrom_of_not_mem o hm, startsAfter, if_neg hc, List.nil_append]

end LayoutLint.Text
