import LayoutLint.Proofs.Outline.WellFormed
import LayoutLint.Proofs.Rules.SharedLines
import LayoutLint.Rule
import Mathlib.Data.List.Nodup

/-! # The order of the lists of an outline

The rules look at declarations, imports, blocks and `defer` statements in the order of the text or
one by one. Another order in the outline gives the same violations in another order, and where a
rule sorts first, in the same order.
-/

namespace LayoutLint

/-- The two outlines differ only in the order of their declarations, imports, blocks and `defer`
statements. -/
structure Outline.Reordered (o o' : Outline) : Prop where
  package : o.package = o'.package
  comments : o.comments = o'.comments
  hasSyntaxErrors : o.hasSyntaxErrors = o'.hasSyntaxErrors
  imports : o.imports.Perm o'.imports
  decls : o.decls.Perm o'.decls
  blocks : o.blocks.Perm o'.blocks
  defers : o.defers.Perm o'.defers

variable {t : SourceText} {o o' : Outline}

/-! ## The rules -/

namespace Separator

theorem layout_eq_of_reordered (h : o.Reordered o') (hspans : (o.decls.map Decl.span).Nodup)
    (options : Options) : Layout.of t options o = Layout.of t options o' := by
  have himports : o.imports.mergeSort Span.le = o'.imports.mergeSort Span.le :=
    mergeSort_span_eq_of_perm id h.imports fun _ _ _ _ heq => heq
  have hdecls := mergeSort_span_eq_of_perm Decl.span h.decls fun d hd e he heq =>
    List.inj_on_of_nodup_map hspans hd he heq
  simp only [Layout.of, h.package, h.comments, himports, hdecls]

theorem findings_eq_of_reordered (h : o.Reordered o') (hspans : (o.decls.map Decl.span).Nodup)
    (options : Options) : findings t options o = findings t options o' := by
  rw [findings, findings, layout_eq_of_reordered h hspans]

end Separator

namespace ClosingBrace

theorem multipleFindings_eq_of_perm {blocks blocks' : List Block} (h : blocks.Perm blocks') :
    multipleFindings t blocks = multipleFindings t blocks' := by
  rw [multipleFindings_eq, multipleFindings_eq]
  refine List.filterMap_congr fun line _ => ?_
  have hclosings : (closings t blocks line).Perm (closings t blocks' line) :=
    (h.map Block.rbrace).filter _
  rw [leastShared?_eq_of_perm hclosings]

theorem findings_perm (h : o.Reordered o') : (findings t o).Perm (findings t o') := by
  rw [findings, findings, multipleFindings_eq_of_perm h.blocks]
  exact (h.blocks.flatMap_right _).append_right _

theorem message_ne_of_mem_blockFindings {b : Block} {f : Finding} (hf : f ∈ blockFindings t b) :
    f.message ≠ multipleCloses := by
  rcases (of_mem_blockFindings hf).2 with hmessage | hmessage <;> rw [hmessage]
  · show blankBefore ≠ multipleCloses
    decide
  · show missingAfter ≠ multipleCloses
    decide

theorem filter_findings_multipleCloses (t : SourceText) (o : Outline) :
    (findings t o).filter (·.message = multipleCloses) = multipleFindings t o.blocks := by
  have hblocks : (o.blocks.flatMap (blockFindings t)).filter (·.message = multipleCloses) = [] := by
    refine List.filter_eq_nil_iff.mpr fun f hf => ?_
    obtain ⟨b, -, hf⟩ := List.mem_flatMap.mp hf
    rw [decide_eq_true_eq]
    exact message_ne_of_mem_blockFindings hf
  have hmultiple : (multipleFindings t o.blocks).filter (·.message = multipleCloses) =
      multipleFindings t o.blocks :=
    List.filter_eq_self.mpr fun f hf => decide_eq_true (message_of_mem_multipleFindings hf)
  rw [findings, List.filter_append, hblocks, hmultiple, List.nil_append]

end ClosingBrace

theorem DeferPlacement.findings_perm (h : o.Reordered o') :
    (findings t o).Perm (findings t o') := by
  have hlines : (bodyLines t o).Perm (bodyLines t o') := (h.blocks.filter _).map _
  have hmisplaced : ∀ d, isMisplaced t (bodyLines t o) d = isMisplaced t (bodyLines t o') d := by
    intro d
    simp only [isMisplaced, List.contains_eq_mem, hlines.mem_iff]
  simp only [findings, findingsWith, hmisplaced]
  exact (h.defers.filter _).map _

theorem SignatureGap.findings_perm (h : o.Reordered o') : (findings t o).Perm (findings t o') := by
  rw [findings, findings, h.comments]
  exact (h.decls.filterMap _).filterMap _

theorem Check.findings_perm (c : Check) (h : o.Reordered o')
    (hspans : (o.decls.map Decl.span).Nodup) : (c.findings t o).Perm (c.findings t o') := by
  cases c with
  | closingBrace => exact ClosingBrace.findings_perm h
  | deferPlacement => exact DeferPlacement.findings_perm h
  | signatureGap => exact SignatureGap.findings_perm h
  | separatorGroups options => exact .of_eq (Separator.findings_eq_of_reordered h hspans options)

/-- A rule reports the same violations in whatever order an outline lists what it holds. The rule
for separators reports them in the same order, and so does the rule for closing braces where
several stand on a line. -/
theorem Rule.violations_reordered (t : SourceText) (file : String) (o o' : Outline)
    (h : o.Reordered o') (hspans : (o.decls.map Decl.span).Nodup) (r : Rule) :
    (r.violations t file o).Perm (r.violations t file o') ∧
      (∀ options, r.check = .separatorGroups options →
        r.violations t file o = r.violations t file o') ∧
      (r.check = .closingBrace →
        (r.violations t file o).filter (·.message = ClosingBrace.multipleCloses) =
          (r.violations t file o').filter (·.message = ClosingBrace.multipleCloses)) := by
  refine ⟨(r.check.findings_perm h hspans).map _, ?_, ?_⟩
  · intro options hcheck
    rw [violations, violations, hcheck]
    exact congrArg (List.map _) (Separator.findings_eq_of_reordered h hspans options)
  · intro hcheck
    have hmessage : ∀ o : Outline,
        (r.violations t file o).filter (·.message = ClosingBrace.multipleCloses) =
          (ClosingBrace.multipleFindings t o.blocks).map (r.report t file) := by
      intro o
      rw [violations, List.filter_map, hcheck, ← ClosingBrace.filter_findings_multipleCloses]
      rfl
    rw [hmessage, hmessage, ClosingBrace.multipleFindings_eq_of_perm h.blocks]

def pairedOutline : Outline where
  package := ⟨0, 9⟩
  imports := [⟨17, 20⟩, ⟨28, 31⟩]
  decls := [.func ⟨⟨32, 68⟩, "f", none, ⟨38, 40⟩, [], some ⟨41, 67, some 43, [.other]⟩⟩,
    .gen ⟨69, 78⟩ .vars []]
  blocks := [⟨41, 67, .functionBody⟩, ⟨43, 66, .statement⟩]
  defers := [⟨45, 54⟩, ⟨56, 65⟩]

def swappedOutline : Outline :=
  { pairedOutline with
    imports := pairedOutline.imports.reverse
    decls := pairedOutline.decls.reverse
    blocks := pairedOutline.blocks.reverse
    defers := pairedOutline.defers.reverse }

theorem Rule.violations_reordered_paired :
    let t := SourceText.ofString ("package a\nimport \"b\"\nimport \"c\"\n" ++
      "func f() \x7b \x7b defer g()\n\ndefer h() \x7d\x7d\nvar i int\n")
    let separators : Rule := ⟨.separatorGroups {}, .error⟩
    let braces : Rule := ⟨.closingBrace, .error⟩
    pairedOutline.Reordered swappedOutline ∧ (pairedOutline.decls.map Decl.span).Nodup ∧
      pairedOutline.decls ≠ swappedOutline.decls ∧
      separators.violations t "a.go" pairedOutline =
        separators.violations t "a.go" swappedOutline ∧
      (braces.violations t "a.go" pairedOutline).Perm
        (braces.violations t "a.go" swappedOutline) := by
  intro t separators braces
  have hreordered : pairedOutline.Reordered swappedOutline :=
    ⟨rfl, rfl, rfl, .swap _ _ _, .swap _ _ _, .swap _ _ _, .swap _ _ _⟩
  have hspans : (pairedOutline.decls.map Decl.span).Nodup := by decide
  have hseparators := violations_reordered t "a.go" _ _ hreordered hspans separators
  have hbraces := violations_reordered t "a.go" _ _ hreordered hspans braces
  exact ⟨hreordered, hspans, by decide, hseparators.2.1 _ rfl, hbraces.1⟩

end LayoutLint
