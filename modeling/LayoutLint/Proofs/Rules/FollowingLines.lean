import LayoutLint.Proofs.Outline.WellFormed
import LayoutLint.Proofs.Rules.Comments
import LayoutLint.Proofs.Rules.SharedLines
import LayoutLint.Rule
import LayoutLint.Text.Identifier
import Mathlib.Data.List.Nodup

/-! # Code on the line after a closing brace

A `defer` statement may follow a block directly, other code may not. The rule knows the statement by
the letters of its keyword, so that a longer word with the same beginning passes as well.
-/

namespace LayoutLint.ClosingBrace

/-- The identifier or keyword that the line starts with. -/
def firstWord (line : List Char) : List Char := line.takeWhile Text.isIdentContinue

/-- The block ends its line, and the line below is neither blank nor starts with a closing brace or
with the keyword `defer`. -/
structure CodeFollows (t : SourceText) (b : Block) (line : List Char) : Prop where
  ends : continues (tailAfter t b.rbrace) = false
  below : t.trimmedLine? (t.lineAt b.rbrace + 1) = some line
  not_blank : line ≠ []
  not_closing : line.head? ≠ some '\x7d'
  not_defer : firstWord line ≠ "defer".toList

def missingFinding (offset : Nat) : Finding :=
  ⟨braceSpan offset, missingAfter, some "Insert an empty line after `\x7d`"⟩

/-- How many times a missing blank line is reported at the brace. -/
def reportsAt (severity : Severity) (t : SourceText) (file : String) (o : Outline)
    (offset : Nat) : Nat :=
  (Rule.violations ⟨.closingBrace, severity⟩ t file o).countP fun v =>
    v.message = missingAfter ∧ v.location = t.location file (braceSpan offset)

variable {t : SourceText} {o : Outline} {b : Block} {line : List Char}

/-! ## One block -/

theorem CodeFollows.lacksBlankAfter_iff (h : CodeFollows t b line) :
    lacksBlankAfter t b = true ↔ ¬ "defer".toList <+: line := by
  have hclosing : ['\x7d'].isPrefixOf line = false := by
    cases line with
    | nil => rfl
    | cons c line =>
      have hne : '\x7d' ≠ c := fun heq => h.not_closing (by rw [heq]; rfl)
      simp [List.isPrefixOf, hne]
  have hempty : line.isEmpty = false := by simpa using h.not_blank
  simp only [lacksBlankAfter, h.below, h.ends, mayFollow, hclosing, hempty, Bool.false_or,
    Bool.or_false, Bool.not_false, Bool.and_true, Bool.not_eq_true',
    ← List.isPrefixOf_iff_prefix, Bool.not_eq_true]

theorem filter_blockFindings_missingAfter :
    (blockFindings t b).filter (·.message = missingAfter) =
      if lacksBlankAfter t b then [missingFinding b.rbrace] else [] := by
  have hne : blankBefore ≠ missingAfter := by decide
  unfold blockFindings missingFinding
  cases hasBlankBefore t b <;> cases lacksBlankAfter t b <;>
    simp [blankBeforeAt, missingAfterAt, hne]

theorem lacksBlankAfter_congr {b' : Block} (h : b.rbrace = b'.rbrace) :
    lacksBlankAfter t b = lacksBlankAfter t b' := by
  unfold lacksBlankAfter
  rw [h]

/-! ## All blocks -/

theorem location_braceSpan_inj {file : String} {i j : Nat} :
    t.location file (braceSpan i) = t.location file (braceSpan j) ↔ i = j := by
  constructor
  · intro h
    exact congrArg Location.offset h
  · rintro rfl
    rfl

theorem countP_report_blockFindings {severity : Severity} {file : String} {offset : Nat} :
    ((blockFindings t b).map (Rule.report ⟨.closingBrace, severity⟩ t file)).countP (fun v =>
        v.message = missingAfter ∧ v.location = t.location file (braceSpan offset)) =
      if b.rbrace = offset ∧ lacksBlankAfter t b = true then 1 else 0 := by
  have hne : blankBefore ≠ missingAfter := by decide
  unfold blockFindings
  cases hasBlankBefore t b <;> cases lacksBlankAfter t b <;>
    simp [Rule.report, Rule.reportAt, blankBeforeAt, missingAfterAt, hne, location_braceSpan_inj,
      List.countP_cons]

theorem reportsAt_eq (severity : Severity) (file : String) :
    reportsAt severity t file o b.rbrace =
      if lacksBlankAfter t b then (o.blocks.map Block.rbrace).count b.rbrace else 0 := by
  have hmultiple : ((multipleFindings t o.blocks).map
      (Rule.report ⟨.closingBrace, severity⟩ t file)).countP (fun v =>
        v.message = missingAfter ∧ v.location = t.location file (braceSpan b.rbrace)) = 0 := by
    have hne : multipleCloses ≠ missingAfter := by decide
    apply List.countP_eq_zero.mpr
    intro v hv
    obtain ⟨f, hf, rfl⟩ := List.mem_map.mp hv
    simp [Rule.report, Rule.reportAt, message_of_mem_multipleFindings hf, hne]
  unfold reportsAt Rule.violations Check.findings findings
  simp only [List.map_append, List.countP_append, hmultiple, Nat.add_zero]
  induction o.blocks with
  | nil => simp
  | cons a blocks ih =>
    rw [List.flatMap_cons, List.map_append, List.countP_append, ih, countP_report_blockFindings,
      List.map_cons, List.count_cons]
    by_cases ha : a.rbrace = b.rbrace
    · rw [lacksBlankAfter_congr ha]
      cases lacksBlankAfter t b <;> simp [ha, Nat.add_comm]
    · simp [ha]

theorem count_rbrace_eq_one {cs : List Char} (ho : o.WellFormed cs) (hb : b ∈ o.blocks) :
    (o.blocks.map Block.rbrace).count b.rbrace = 1 := by
  have hnodup : (o.blocks.map Block.rbrace).Nodup := by
    apply List.pairwise_map.mpr
    apply ho.blocks_apart.imp_of_mem
    intro a b ha hb hapart heq
    obtain ⟨halt, -⟩ := ho.braces a ha
    obtain ⟨hblt, -⟩ := ho.braces b hb
    unfold Block.Apart at hapart
    omega
  exact List.count_eq_one_of_mem hnodup (List.mem_map_of_mem hb)

/-- Code on the next line is reported at the closing brace, once for the block, unless its first
word goes on after the letters `defer`: then nothing is reported. In a well-formed outline no other
block closes at the brace. -/
theorem reportsAt_of_codeFollows (t : SourceText) (severity : Severity) (file : String)
    (o : Outline) (b : Block) (line : List Char) (hb : b ∈ o.blocks) (h : CodeFollows t b line) :
    (¬ "defer".toList <+: line →
      (blockFindings t b).filter (·.message = missingAfter) = [missingFinding b.rbrace] ∧
      reportsAt severity t file o b.rbrace = (o.blocks.map Block.rbrace).count b.rbrace) ∧
    ("defer".toList <+: line →
      (blockFindings t b).filter (·.message = missingAfter) = [] ∧
      reportsAt severity t file o b.rbrace = 0) ∧
    (o.WellFormed t.chars → (o.blocks.map Block.rbrace).count b.rbrace = 1) := by
  rw [filter_blockFindings_missingAfter, reportsAt_eq]
  constructor
  · intro hword
    rw [h.lacksBlankAfter_iff.mpr hword]
    exact ⟨rfl, rfl⟩
  constructor
  · intro hword
    have hpasses : lacksBlankAfter t b = false := by
      rw [← Bool.not_eq_true, h.lacksBlankAfter_iff]
      exact not_not_intro hword
    rw [hpasses]
    exact ⟨rfl, rfl⟩
  · intro ho
    exact count_rbrace_eq_one ho hb

def callBelow (name : String) : SourceText :=
  { chars := ("package a\n\nfunc f() \x7b\n\tif x \x7b\n\t\x7d\n\t" ++ name ++
      "()\n\x7d\n").toList }

theorem reportsAt_of_codeFollows_call :
    ⟨28, 31, .statement⟩ ∈ (Outline.ofText (callBelow "g").chars).blocks ∧
      CodeFollows (callBelow "g") ⟨28, 31, .statement⟩ "g()".toList ∧
      reportsAt .error (callBelow "g") "a.go" (Outline.ofText (callBelow "g").chars) 31 = 1 := by
  have hb : ⟨28, 31, .statement⟩ ∈ (Outline.ofText (callBelow "g").chars).blocks := by
    rw [Outline.mem_blocks_ofText_iff]
    decide +kernel
  have htail : tailAfter (callBelow "g") 31 = [] := by decide +kernel
  have hfollows : CodeFollows (callBelow "g") ⟨28, 31, .statement⟩ "g()".toList :=
    ⟨htail ▸ continues_nil, by decide +kernel, by decide, by decide, by decide +kernel⟩
  obtain ⟨hreports, -, hone⟩ := reportsAt_of_codeFollows (callBelow "g") .error "a.go"
    (Outline.ofText (callBelow "g").chars) ⟨28, 31, .statement⟩ "g()".toList hb hfollows
  obtain ⟨-, hcount⟩ := hreports (by decide +kernel)
  exact ⟨hb, hfollows, hcount.trans
    (hone (Outline.wellFormed_of_ne (Outline.ne_of_mem_blocks hb)))⟩

/-- A call of `deferred` passes for a `defer` statement. -/
theorem not_forall_codeFollows_reported :
    ¬ ∀ (t : SourceText) (severity : Severity) (file : String),
      ∀ b ∈ (Outline.ofText t.chars).blocks, ∀ line, CodeFollows t b line →
        ∃ v ∈ Rule.violations ⟨.closingBrace, severity⟩ t file (Outline.ofText t.chars),
          v.message = missingAfter ∧ v.location = t.location file (braceSpan b.rbrace) := by
  intro h
  have hb : ⟨28, 31, .statement⟩ ∈ (Outline.ofText (callBelow "deferred").chars).blocks := by
    rw [Outline.mem_blocks_ofText_iff]
    decide +kernel
  have htail : tailAfter (callBelow "deferred") 31 = [] := by decide +kernel
  have hfollows : CodeFollows (callBelow "deferred") ⟨28, 31, .statement⟩ "deferred()".toList :=
    ⟨htail ▸ continues_nil, by decide +kernel, by decide, by decide, by decide +kernel⟩
  obtain ⟨v, hv, hreport⟩ := h (callBelow "deferred") .error "a.go" _ hb _ hfollows
  have hpasses : lacksBlankAfter (callBelow "deferred") ⟨28, 31, .statement⟩ = false := by
    rw [← Bool.not_eq_true, hfollows.lacksBlankAfter_iff]
    decide +kernel
  have hnone : reportsAt .error (callBelow "deferred") "a.go"
      (Outline.ofText (callBelow "deferred").chars) 31 = 0 := by
    rw [reportsAt_eq (b := ⟨28, 31, .statement⟩), hpasses]
    rfl
  exact List.countP_eq_zero.mp hnone v hv (decide_eq_true hreport)

end LayoutLint.ClosingBrace
