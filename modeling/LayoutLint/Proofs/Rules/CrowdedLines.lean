import LayoutLint.Proofs.Guarded.Rules
import LayoutLint.Proofs.Rules.Reordered
import LayoutLint.Proofs.Text.LineEndings

/-! # Reports about crowded lines

Blocks come in the order of their opening braces, so those that close on a line may be listed in any
order and far apart. The report for the line stands at the first brace all the same, and the reports
come in the order of their lines. A report needs the offset after its brace, so a run stops at a
brace that has none.
-/

namespace LayoutLint.ClosingBrace

variable {t : SourceText} {blocks : List Block} {line offset : Nat}

/-- How many of the blocks close on the line. -/
def closesAt (t : SourceText) (blocks : List Block) (line : Nat) : Nat :=
  blocks.countP fun b => t.lineAt b.rbrace = line

/-- Several blocks close on the line of the block, and no other brace stands before its own. -/
structure FirstOfSeveral (t : SourceText) (blocks : List Block) (b : Block) : Prop where
  several : 2 ≤ closesAt t blocks (t.lineAt b.rbrace)
  least : ∀ a ∈ blocks, t.lineAt a.rbrace = t.lineAt b.rbrace → b.rbrace ≤ a.rbrace

def sharedReports (severity : Severity) (t : SourceText) (file : String) (o : Outline) :
    List Violation :=
  (Rule.violations ⟨.closingBrace, severity⟩ t file o).filter (·.message = multipleCloses)

/-! ## One line -/

theorem length_closings (t : SourceText) (blocks : List Block) (line : Nat) :
    (closings t blocks line).length = closesAt t blocks line := by
  rw [closings, ← List.countP_eq_length_filter, List.countP_map]
  rfl

theorem mem_closings_iff :
    offset ∈ closings t blocks line ↔ t.lineAt offset = line ∧ ∃ b ∈ blocks, b.rbrace = offset := by
  rw [closings, List.mem_filter, List.mem_map, decide_eq_true_eq, and_comm]

theorem leastShared?_eq_some_iff {ns : List Nat} {m : Nat} :
    leastShared? ns = some m ↔ 2 ≤ ns.length ∧ m ∈ ns ∧ ∀ n ∈ ns, m ≤ n := by
  unfold leastShared?
  split
  case isTrue hlength => rw [List.min?_eq_some_iff, and_iff_right hlength]
  case isFalse hlength => simp [hlength]

theorem isSome_leastShared? {ns : List Nat} : (leastShared? ns).isSome = true ↔ 2 ≤ ns.length := by
  unfold leastShared?
  split
  case isTrue hlength =>
    have hne : ns ≠ [] := List.ne_nil_of_length_pos (by omega)
    simp [hlength, hne]
  case isFalse hlength => simp [hlength]

theorem leastShared?_closings_iff :
    leastShared? (closings t blocks line) = some offset ↔
      ∃ b ∈ blocks, FirstOfSeveral t blocks b ∧ b.rbrace = offset ∧ t.lineAt offset = line := by
  rw [leastShared?_eq_some_iff, length_closings, mem_closings_iff]
  constructor
  · rintro ⟨hseveral, ⟨rfl, b, hb, rfl⟩, hleast⟩
    refine ⟨b, hb, ⟨hseveral, fun a ha hline => hleast a.rbrace ?_⟩, rfl, rfl⟩
    exact mem_closings_iff.mpr ⟨hline, a, ha, rfl⟩
  · rintro ⟨b, hb, hfirst, rfl, rfl⟩
    refine ⟨hfirst.several, ⟨rfl, b, hb, rfl⟩, fun n hn => ?_⟩
    obtain ⟨hline, a, ha, rfl⟩ := mem_closings_iff.mp hn
    exact hfirst.least a ha hline

/-! ## All lines -/

section

variable (severity : Severity) (t : SourceText) (file : String) (o : Outline)

theorem sharedReports_eq :
    sharedReports severity t file o = (List.range t.lineCount).filterMap fun line =>
      (leastShared? (closings t o.blocks line)).map fun offset =>
        Rule.report ⟨.closingBrace, severity⟩ t file (sharedFinding offset) := by
  have hfindings : sharedReports severity t file o =
      (multipleFindings t o.blocks).map (Rule.report ⟨.closingBrace, severity⟩ t file) := by
    rw [sharedReports, Rule.violations, List.filter_map, ← filter_findings_multipleCloses]
    rfl
  rw [hfindings, multipleFindings_eq, List.map_filterMap]
  simp only [Option.map_map, Function.comp_def]

theorem line_report (offset : Nat) :
    (Rule.report ⟨.closingBrace, severity⟩ t file (sharedFinding offset)).location.line =
      t.lineAt offset + 1 := rfl

theorem mem_sharedReports_iff {v : Violation} :
    v ∈ sharedReports severity t file o ↔ ∃ line offset,
      leastShared? (closings t o.blocks line) = some offset ∧
        v = Rule.report ⟨.closingBrace, severity⟩ t file (sharedFinding offset) := by
  rw [sharedReports_eq, List.mem_filterMap]
  constructor
  · rintro ⟨line, -, hline⟩
    obtain ⟨offset, hoffset, rfl⟩ := Option.map_eq_some_iff.mp hline
    exact ⟨line, offset, hoffset, rfl⟩
  · rintro ⟨line, offset, hoffset, rfl⟩
    refine ⟨line, List.mem_range.mpr ?_, Option.map_eq_some_iff.mpr ⟨offset, hoffset, rfl⟩⟩
    rw [← lineAt_of_leastShared? hoffset]
    exact t.lineAt_lt_lineCount offset

theorem pairwise_line_sharedReports :
    ((sharedReports severity t file o).map (·.location.line)).Pairwise (· < ·) := by
  rw [sharedReports_eq]
  apply List.pairwise_map.mpr
  apply List.pairwise_filterMap.mpr
  refine List.pairwise_lt_range.imp fun hlt v hv w hw => ?_
  obtain ⟨first, hfirst, rfl⟩ := Option.map_eq_some_iff.mp hv
  obtain ⟨second, hsecond, rfl⟩ := Option.map_eq_some_iff.mp hw
  rw [line_report, line_report, lineAt_of_leastShared? hfirst, lineAt_of_leastShared? hsecond]
  exact Nat.succ_lt_succ hlt

theorem line_mem_sharedReports_iff {line : Nat} :
    line + 1 ∈ (sharedReports severity t file o).map (·.location.line) ↔
      2 ≤ closesAt t o.blocks line := by
  rw [← length_closings, ← isSome_leastShared?, Option.isSome_iff_exists, List.mem_map]
  constructor
  · rintro ⟨v, hv, hline⟩
    obtain ⟨line', offset, hoffset, rfl⟩ := (mem_sharedReports_iff severity t file o).mp hv
    rw [line_report, lineAt_of_leastShared? hoffset, Nat.succ_inj] at hline
    exact ⟨offset, hline ▸ hoffset⟩
  · rintro ⟨offset, hoffset⟩
    refine ⟨_, (mem_sharedReports_iff severity t file o).mpr ⟨line, offset, hoffset, rfl⟩, ?_⟩
    rw [line_report, lineAt_of_leastShared? hoffset]

theorem mem_sharedReports_iff_firstOfSeveral {v : Violation} :
    v ∈ sharedReports severity t file o ↔ ∃ b ∈ o.blocks, FirstOfSeveral t o.blocks b ∧
      v = Rule.report ⟨.closingBrace, severity⟩ t file (sharedFinding b.rbrace) := by
  rw [mem_sharedReports_iff]
  constructor
  · rintro ⟨line, offset, hoffset, rfl⟩
    obtain ⟨b, hb, hfirst, rfl, -⟩ := leastShared?_closings_iff.mp hoffset
    exact ⟨b, hb, hfirst, rfl⟩
  · rintro ⟨b, hb, hfirst, rfl⟩
    exact ⟨_, _, leastShared?_closings_iff.mpr ⟨b, hb, hfirst, rfl, rfl⟩, rfl⟩

theorem countP_line_sharedReports (line : Nat) :
    (sharedReports severity t file o).countP (·.location.line = line + 1) =
      if 2 ≤ closesAt t o.blocks line then 1 else 0 := by
  have hordered := pairwise_line_sharedReports severity t file o
  have hcount : (sharedReports severity t file o).countP (·.location.line = line + 1) =
      ((sharedReports severity t file o).map (·.location.line)).count (line + 1) := by
    rw [List.count_eq_countP, List.countP_map]
    rfl
  rw [hcount]
  split
  case isTrue hseveral =>
    apply List.count_eq_one_of_mem (hordered.imp Nat.ne_of_lt)
    exact (line_mem_sharedReports_iff severity t file o).mpr hseveral
  case isFalse hfew =>
    apply List.count_eq_zero_of_not_mem
    exact mt (line_mem_sharedReports_iff severity t file o).mp hfew

end

/-- The run gives the reports about several braces on a line in the order of the lines. There is one
for each line on which two blocks or more close, at the first of their braces, and no other. -/
theorem sharedReports_exact (severity : Severity) (t : SourceText) (file : String) (o : Outline)
    (hm : Guarded.InMemory t .closingBrace o) (ho : ∀ b ∈ o.blocks, b.rbrace + 1 < Word.count) :
    ∃ vs, Guarded.violations t ⟨.closingBrace, severity⟩ file o = .ok vs ∧
      ((vs.filter (·.message = multipleCloses)).map (·.location.line)).Pairwise (· < ·) ∧
      (∀ line, (vs.filter (·.message = multipleCloses)).countP (·.location.line = line + 1) =
        if 2 ≤ closesAt t o.blocks line then 1 else 0) ∧
      (∀ v, v ∈ vs.filter (·.message = multipleCloses) ↔
        ∃ b ∈ o.blocks, FirstOfSeveral t o.blocks b ∧
          v = Rule.report ⟨.closingBrace, severity⟩ t file (sharedFinding b.rbrace)) :=
  ⟨_, Guarded.violations_ok (r := ⟨.closingBrace, severity⟩) hm ho file,
    pairwise_line_sharedReports severity t file o, countP_line_sharedReports severity t file o,
    fun _ => mem_sharedReports_iff_firstOfSeveral severity t file o⟩

def crowdedBlocks : Outline where
  blocks := [⟨0, 3, .functionBody⟩, ⟨1, 2, .statement⟩, ⟨4, Word.count - 2, .statement⟩]

theorem sharedReports_exact_crowdedBlocks :
    (∀ b ∈ crowdedBlocks.blocks, b.rbrace + 1 < Word.count) ∧
      ∃ vs, Guarded.violations (SourceText.ofString "\x7b\x7b\x7d\x7d\x7b\n")
          ⟨.closingBrace, .error⟩ "a.go" crowdedBlocks = .ok vs ∧
        Rule.report ⟨.closingBrace, .error⟩ (SourceText.ofString "\x7b\x7b\x7d\x7d\x7b\n") "a.go"
          (sharedFinding 2) ∈ vs.filter (·.message = multipleCloses) := by
  have hroom : ∀ b ∈ crowdedBlocks.blocks, b.rbrace + 1 < Word.count := by decide
  obtain ⟨vs, hvs, -, -, hmem⟩ := sharedReports_exact .error
    (SourceText.ofString "\x7b\x7b\x7d\x7d\x7b\n") "a.go" crowdedBlocks
    ⟨by decide, by decide, by decide, by rintro options ⟨⟩⟩ hroom
  refine ⟨hroom, vs, hvs, (hmem _).mpr ⟨⟨1, 2, .statement⟩, by decide, ⟨by decide, by decide⟩, rfl⟩⟩

/-- Two blocks that close at the last word share a line, but the run stops before a report. -/
theorem not_forall_sharedReports_exact :
    ¬ ∀ (severity : Severity) (t : SourceText) (file : String) (o : Outline),
      Guarded.InMemory t .closingBrace o → (∀ x ∈ o.offsets, x < Word.count) →
      ∃ vs, Guarded.violations t ⟨.closingBrace, severity⟩ file o = .ok vs ∧
        ∀ line, (vs.filter (·.message = multipleCloses)).countP (·.location.line = line + 1) =
          if 2 ≤ closesAt t o.blocks line then 1 else 0 := by
  intro h
  obtain ⟨vs, hvs, -⟩ := h .error (SourceText.ofString "\x7d\x7d") "a.go"
    { blocks := [⟨0, Word.count - 1, .statement⟩, ⟨0, Word.count - 1, .statement⟩] }
    ⟨by decide, by decide, by decide, by rintro options ⟨⟩⟩ (by decide)
  have hfault : Guarded.violations (SourceText.ofString "\x7d\x7d") ⟨.closingBrace, .error⟩ "a.go"
      { blocks := [⟨0, Word.count - 1, .statement⟩, ⟨0, Word.count - 1, .statement⟩] } =
        .error .overflow := by decide
  rw [hfault] at hvs
  cases hvs

end LayoutLint.ClosingBrace
