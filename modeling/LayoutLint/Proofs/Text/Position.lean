import LayoutLint.Proofs.Text.LineTable

/-! # Positions

An offset has one place in a text: a line, and a column within that line. The position of an
offset is this place, and positions come in the order of their offsets.
-/

namespace LayoutLint

instance : LE Position := ⟨fun p q => p.line < q.line ∨ p.line = q.line ∧ p.column ≤ q.column⟩

namespace Position

variable {p q : Position}

theorem le_iff : p ≤ q ↔ p.line < q.line ∨ p.line = q.line ∧ p.column ≤ q.column := Iff.rfl

theorem le_antisymm (h : p ≤ q) (h' : q ≤ p) : p = q := by
  rw [le_iff] at h h'
  cases p
  cases q
  simp only [mk.injEq] at *
  omega

end Position

namespace SourceText

variable (t : SourceText)

def bytes : List UInt8 := Text.utf8 t.chars

theorem length_bytes : t.bytes.length = t.size := by rw [bytes, Text.length_utf8, t.size_eq]

theorem lineStarts_eq_scan : t.lineStarts = 0 :: Text.scanFrom 0 t.bytes := by
  rw [t.lineStarts_eq, Text.lineStarts, Text.startsAfter_eq_scanFrom, bytes]

theorem length_lineStarts : t.lineStarts.length = t.lineCount := by
  rw [t.lineStarts_eq, Text.lineStarts_eq_startsFrom, Text.length_startsFrom, lineCount, t.lines_eq]

theorem lineStart?_eq (i : Nat) :
    t.lineStart? i = (t.line? i).map fun _ => Text.startOf t.lines i := by
  rw [lineStart?, line?, t.lineStarts_eq, Text.lineStarts_eq_startsFrom, Text.getElem?_startsFrom,
    ← t.lines_eq]
  simp only [Nat.zero_add]

theorem startOf_lineCount : Text.startOf t.lines t.lineCount = t.size + 1 := by
  rw [lineCount, t.lines_eq, Text.startOf_splitLines_length, t.size_eq]

theorem lineCount_le : t.lineCount ≤ t.size + 1 := by
  rw [← startOf_lineCount]
  exact Text.le_startOf Nat.le.refl

variable {t} in
theorem lt_lineCount_iff {i : Nat} : i < t.lineCount ↔ ∃ l, t.line? i = some l := by
  rw [lineCount, line?, ← Option.isSome_iff_exists, isSome_getElem?]

theorem byteLength_line_le {i : Nat} {l : List Char} (h : t.line? i = some l) :
    Text.byteLength l ≤ t.size := by
  have hs := Text.startOf_succ h
  have hm : Text.startOf t.lines (i + 1) ≤ Text.startOf t.lines t.lineCount :=
    Text.startOf_mono t.lines (lt_lineCount_iff.mpr ⟨l, h⟩)
  rw [startOf_lineCount] at hm
  omega

theorem getElem_lineStarts {i : Nat} (h : i < t.lineStarts.length) :
    t.lineStarts[i] = Text.startOf t.lines i := by
  obtain ⟨line, hl⟩ := lt_lineCount_iff.mp (t.length_lineStarts ▸ h)
  have hs := t.lineStart?_eq i
  rw [hl, lineStart?, List.getElem?_eq_getElem h] at hs
  exact Option.some.inj hs

theorem utf8_line {i : Nat} {l : List Char} (h : t.line? i = some l) :
    (t.bytes.drop (Text.startOf t.lines i)).takeWhile (· ≠ Text.lineFeed) = Text.utf8 l := by
  rw [line?, t.lines_eq] at h
  obtain ⟨above, below, hcs, ha, hl, hb⟩ := Text.exists_append_of_getElem?_splitLines h
  have hdrop : t.bytes.drop (Text.startOf t.lines i) = Text.utf8 l ++ Text.utf8 below := by
    rw [bytes, hcs, t.lines_eq, ← ha, Text.utf8_append, Text.utf8_append]
    exact List.drop_left' (Text.length_utf8 above)
  have hne : ∀ b ∈ Text.utf8 l, decide (b ≠ Text.lineFeed) = true := by
    intro b hm
    rw [decide_eq_true_eq]
    rintro rfl
    exact Text.lineFeed_not_mem_utf8 hl hm
  rw [hdrop, List.takeWhile_append_of_pos hne]
  rcases hb with rfl | ⟨rest, rfl⟩
  · simp
  · simp [Text.utf8EncodeChar_lineFeed]

/-! ## Places -/

/-- The line exists, the column lies in it, and they lead to offset `o`. -/
def Marks (p : Position) (o : Nat) : Prop :=
  ∃ start line, t.lineStart? p.line = some start ∧ t.line? p.line = some line ∧
    start + p.column = o ∧ p.column ≤ (Text.utf8 line).length

variable {t} {p q : Position} {a b : Nat}

theorem marks_iff :
    t.Marks p a ↔ ∃ line, t.line? p.line = some line ∧
      Text.startOf t.lines p.line + p.column = a ∧ p.column ≤ Text.byteLength line := by
  simp only [Marks, lineStart?_eq, Option.map_eq_some_iff, Text.length_utf8]
  constructor
  · rintro ⟨_, line, ⟨_, _, rfl⟩, hl, ha, hc⟩
    exact ⟨line, hl, ha, hc⟩
  · rintro ⟨line, hl, ha, hc⟩
    exact ⟨_, line, ⟨line, hl, rfl⟩, hl, ha, hc⟩

theorem Marks.lt_startOf (h : t.Marks p a) {i : Nat} (hi : p.line < i) :
    a < Text.startOf t.lines i := by
  obtain ⟨line, hl, ha, hc⟩ := marks_iff.mp h
  have hs := Text.startOf_succ hl
  have hm : Text.startOf t.lines (p.line + 1) ≤ Text.startOf t.lines i :=
    Text.startOf_mono t.lines hi
  omega

theorem Marks.startOf_le (h : t.Marks p a) : Text.startOf t.lines p.line ≤ a := by
  obtain ⟨line, -, ha, -⟩ := marks_iff.mp h
  omega

theorem Marks.le_size (h : t.Marks p a) : a ≤ t.size := by
  obtain ⟨line, hl, -⟩ := marks_iff.mp h
  have hlt := h.lt_startOf (lt_lineCount_iff.mpr ⟨line, hl⟩)
  rw [startOf_lineCount] at hlt
  omega

theorem Marks.le_of_le (hp : t.Marks p a) (hq : t.Marks q b) (h : a ≤ b) : p ≤ q := by
  rw [Position.le_iff]
  rcases Nat.lt_trichotomy p.line q.line with hlt | he | hgt
  · exact .inl hlt
  · refine .inr ⟨he, ?_⟩
    obtain ⟨_, _, ha, _⟩ := marks_iff.mp hp
    obtain ⟨_, _, hb, _⟩ := marks_iff.mp hq
    rw [he] at ha
    omega
  · have := hq.lt_startOf hgt
    have := hp.startOf_le
    omega

theorem Marks.unique (hp : t.Marks p a) (hq : t.Marks q a) : p = q :=
  Position.le_antisymm (hp.le_of_le hq Nat.le.refl) (hq.le_of_le hp Nat.le.refl)

/-! ## The position of an offset -/

variable (t)

/-- The first line that starts past an offset, if there is one, is the line after its own. -/
theorem lineAt_eq_findIdx (o : Nat) :
    t.lineAt o = t.lineStarts.findIdx (fun s => !decide (s ≤ min o t.size)) - 1 := by
  rw [lineAt, List.takeWhile_eq_take_findIdx_not, List.length_take,
    Nat.min_eq_left List.findIdx_le_length]

theorem lineAt_spec (o : Nat) :
    ∃ line, t.line? (t.lineAt o) = some line ∧
      Text.startOf t.lines (t.lineAt o) ≤ min o t.size ∧
      min o t.size < Text.startOf t.lines (t.lineAt o + 1) := by
  have hsize := t.startOf_lineCount
  have hlen := t.length_lineStarts
  have hat := t.lineAt_eq_findIdx o
  generalize hm : min o t.size = m at *
  generalize hk : t.lineStarts.findIdx (fun s => !decide (s ≤ m)) = k at *
  have hpos : 0 < k := by
    rw [← hk, t.lineStarts_eq, Text.lineStarts, List.findIdx_cons]
    simp
  have hle : k ≤ t.lineCount := by
    rw [← hk, ← hlen]
    exact List.findIdx_le_length
  obtain ⟨line, hl⟩ : ∃ line, t.line? (t.lineAt o) = some line :=
    lt_lineCount_iff.mp (by omega)
  refine ⟨line, hl, ?_, ?_⟩
  · -- the start of this line passes the test
    have hi : t.lineAt o < t.lineStarts.findIdx (fun s => !decide (s ≤ m)) := by omega
    have := List.not_of_lt_findIdx hi
    simpa [getElem_lineStarts] using this
  · rw [hat, Nat.sub_add_cancel hpos]
    rcases Nat.lt_or_eq_of_le hle with hlt | he
    · -- the next line exists and fails the test
      have hw : t.lineStarts.findIdx (fun s => !decide (s ≤ m)) < t.lineStarts.length := by
        rw [hk, hlen]
        exact hlt
      have := List.findIdx_getElem (w := hw)
      simpa [getElem_lineStarts, hk] using this
    · rw [he, hsize]
      omega

theorem lineAt_lt_lineCount (o : Nat) : t.lineAt o < t.lineCount := by
  obtain ⟨line, hl, -⟩ := t.lineAt_spec o
  exact lt_lineCount_iff.mpr ⟨line, hl⟩

theorem marks_position (o : Nat) : t.Marks (t.position o) (min o t.size) := by
  obtain ⟨line, hl, hle, hlt⟩ := t.lineAt_spec o
  rw [Text.startOf_succ hl] at hlt
  refine marks_iff.mpr ⟨line, hl, ?_, ?_⟩ <;>
    simp only [position, lineStart?_eq, hl, Option.map_some, Option.getD_some] <;> omega

theorem marks_iff_eq_position (p : Position) (o : Nat) :
    t.Marks p (min o t.size) ↔ p = t.position o := by
  constructor
  · exact fun h => h.unique (t.marks_position o)
  · rintro rfl
    exact t.marks_position o

/-- The table of line starts is in order, so the last start at or before an offset can be searched
by halving. -/
theorem lineStarts_increasing : t.lineStarts.Pairwise (· < ·) := by
  rw [List.pairwise_iff_getElem]
  intro i j hi hj hij
  obtain ⟨line, hl⟩ := lt_lineCount_iff.mp (t.length_lineStarts ▸ hi)
  have hs := Text.startOf_succ hl
  have hm : Text.startOf t.lines (i + 1) ≤ Text.startOf t.lines j := Text.startOf_mono t.lines hij
  rw [getElem_lineStarts, getElem_lineStarts]
  omega

/-- The table of line starts comes from the line feeds among the bytes, and it fits the table of
lines. The position of an offset is its only place, every place is the position of its offset, and
positions come in the order of the offsets. -/
theorem position_exact :
    t.size = t.bytes.length ∧
    t.lineStarts = 0 :: Text.scanFrom 0 t.bytes ∧ t.lineStarts.Pairwise (· < ·) ∧
    t.lines.length = t.lineStarts.length ∧
    (∀ i line, t.line? i = some line → ∃ start, t.lineStart? i = some start ∧
      (t.bytes.drop start).takeWhile (· ≠ Text.lineFeed) = Text.utf8 line) ∧
    (∀ o p, t.Marks p (min o t.size) ↔ p = t.position o) ∧
    (∀ l c start line, t.lineStart? l = some start → t.line? l = some line →
      c ≤ (Text.utf8 line).length → t.position (start + c) = ⟨l, c⟩) ∧
    ∀ o o', o ≤ o' → t.position o ≤ t.position o' := by
  refine ⟨t.length_bytes.symm, t.lineStarts_eq_scan, t.lineStarts_increasing,
    t.length_lineStarts.symm, ?_, fun o p => t.marks_iff_eq_position p o, ?_, ?_⟩
  · intro i line hl
    exact ⟨_, by rw [lineStart?_eq, hl]; rfl, t.utf8_line hl⟩
  · intro l c start line hs hl hc
    have hm : t.Marks ⟨l, c⟩ (start + c) := ⟨start, line, hs, hl, rfl, hc⟩
    rw [← Nat.min_eq_left hm.le_size, marks_iff_eq_position] at hm
    exact hm.symm
  · intro o o' h
    exact (t.marks_position o).le_of_le (t.marks_position o') (by omega)

theorem position_exact_below_wide_character :
    let t : SourceText := { chars := ['é', '\n', '\n', 'b', 'c'] }
    t.lineStart? 2 = some 4 ∧ t.line? 2 = some ['b', 'c'] ∧ t.position (4 + 1) = ⟨2, 1⟩ ∧
      t.position 2 ≤ t.position 100 := by
  intro t
  have hs : t.lineStart? 2 = some 4 := by decide
  have hl : t.line? 2 = some ['b', 'c'] := by decide
  obtain ⟨-, -, -, -, -, -, hplace, hmono⟩ := t.position_exact
  exact ⟨hs, hl, hplace 2 1 4 _ hs hl (by rw [Text.length_utf8]; decide), hmono 2 100 (by decide)⟩

end SourceText

end LayoutLint
