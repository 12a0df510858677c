import LayoutLint.Proofs.Rules.SharedLines
import LayoutLint.Proofs.Separator.Unrepeated
import LayoutLint.Rule

/-! # No violation is reported twice

If an outline lists each thing once, no rule reports two violations at one offset with one message.
Different rules have different names, so that nothing is repeated when several rules run.
-/

namespace LayoutLint

variable {t : SourceText} {o : Outline}

/-! ## Outlines that list each thing once -/

/-- The declarations and the comments are not empty and do not overlap, and no two blocks, `defer`
statements or bodies have the same place. -/
structure Outline.Distinct (o : Outline) : Prop where
  decls_nonempty : ∀ d ∈ o.decls, d.span.start < d.span.stop
  decls_disjoint : o.decls.Pairwise fun a b => a.span.Precedes b.span ∨ b.span.Precedes a.span
  comments_nonempty : ∀ c ∈ o.comments, c.span.start < c.span.stop
  comments_sorted : o.comments.Pairwise fun c d => c.span.le d.span = true
  comments_disjoint : o.comments.Pairwise fun c d =>
    c.span.Precedes d.span ∨ d.span.Precedes c.span
  closings : (o.blocks.map Block.rbrace).Nodup
  defers : (o.defers.map Span.start).Nodup
  bodies : ((o.functions.filterMap FuncDecl.body).map FuncBody.lbrace).Nodup

theorem Outline.Distinct.nodup_starts_decls (h : o.Distinct) :
    (o.decls.map (·.span.start)).Nodup := by
  refine List.pairwise_map.mpr (h.decls_disjoint.imp_of_mem fun {a b} ha hb hab heq => ?_)
  have hlt := h.decls_nonempty a ha
  have hlt' := h.decls_nonempty b hb
  unfold Span.Precedes at hab
  omega

theorem Outline.Distinct.inOrder (h : o.Distinct) : Separator.InOrder o.comments where
  start_le_stop c hc := Nat.le_of_lt (h.comments_nonempty c hc)
  ordered := by
    refine (h.comments_sorted.and h.comments_disjoint).imp_of_mem fun hc hd hcd => ?_
    exact (Span.before_of_le (h.comments_nonempty _ hc) (h.comments_nonempty _ hd) hcd.1 hcd.2).2

/-! ## The rules -/

namespace ClosingBrace

theorem unrepeated_blockFindings (b : Block) :
    Unrepeated [blankBefore, missingAfter] (blockFindings t b) := by
  have hbefore : Unrepeated [blankBefore] (if hasBlankBefore t b then
      [⟨braceSpan b.rbrace, blankBefore, some "Remove the empty line before `\x7d`"⟩] else []) := by
    split
    · exact .singleton (.head _)
    · exact .nil
  have hafter : Unrepeated [missingAfter] (if lacksBlankAfter t b then
      [⟨braceSpan b.rbrace, missingAfter, some "Insert an empty line after `\x7d`"⟩] else []) := by
    split
    · exact .singleton (.head _)
    · exact .nil
  exact hbefore.append hafter (by decide +kernel)

theorem start_of_mem_blockFindings {b : Block} {f : Finding} (hf : f ∈ blockFindings t b) :
    f.span.start = b.rbrace := by
  rw [(of_mem_blockFindings hf).1]
  rfl

theorem unrepeated_multipleFindings (blocks : List Block) :
    Unrepeated [multipleCloses] (multipleFindings t blocks) := by
  rw [multipleFindings_eq]
  refine .of_starts (fun f hf => ?_) ?_
  · obtain ⟨line, -, hline⟩ := List.mem_filterMap.mp hf
    obtain ⟨offset, -, rfl⟩ := Option.map_eq_some_iff.mp hline
    exact ⟨multipleCloses, .head _, .refl _⟩
  · -- The line of the brace tells the lines apart.
    refine nodup_starts_filterMap id t.lineAt ?_ fun line _ f hf => ?_
    · rw [List.map_id]
      exact List.nodup_range
    · obtain ⟨offset, hoffset, rfl⟩ := Option.map_eq_some_iff.mp hf
      exact lineAt_of_leastShared? hoffset

theorem unrepeated_findings (h : o.Distinct) :
    Unrepeated [blankBefore, missingAfter, multipleCloses] (findings t o) := by
  have hblocks : Unrepeated [blankBefore, missingAfter] (o.blocks.flatMap (blockFindings t)) := by
    refine .flatMap (fun b _ => unrepeated_blockFindings b) ?_
    refine (List.pairwise_map.mp h.closings).imp fun hne f hf f' hf' => ?_
    rwa [start_of_mem_blockFindings hf, start_of_mem_blockFindings hf']
  exact hblocks.append (unrepeated_multipleFindings o.blocks) (by decide +kernel)

end ClosingBrace

theorem DeferPlacement.unrepeated_findings (h : o.Distinct) :
    Unrepeated [blankBefore] (findings t o) := by
  refine .of_starts (fun f hf => ?_) ?_
  · obtain ⟨s, -, rfl⟩ := List.mem_map.mp hf
    exact ⟨blankBefore, .head _, .refl _⟩
  · simp only [findings, findingsWith, List.map_map]
    exact h.defers.sublist (List.filter_sublist.map _)

theorem SignatureGap.start_of_functionFinding? {comments : List Comment} {f : FuncDecl}
    {finding : Finding} (h : functionFinding? t comments f = some finding) :
    ∃ body, f.body = some body ∧ finding.span.start = body.lbrace := by
  unfold functionFinding? at h
  split at h
  case h_1 => cases h
  case h_2 body hbody =>
    simp only at h
    split at h
    · cases h
    · cases h
      exact ⟨body, hbody, rfl⟩

/-- The message is one of two, of which the second holds a number. -/
theorem SignatureGap.nodup_marks_findings (h : o.Distinct) :
    ((findings t o).map Finding.mark).Nodup := by
  refine List.Nodup.of_map Prod.fst ?_
  rw [List.map_map]
  refine List.pairwise_map.mpr (List.pairwise_filterMap.mpr ?_)
  have hbodies := List.pairwise_filterMap.mp (List.pairwise_map.mp h.bodies)
  refine hbodies.imp fun hne x hx y hy => ?_
  obtain ⟨body, hbody, hstart⟩ := start_of_functionFinding? hx
  obtain ⟨body', hbody', hstart'⟩ := start_of_functionFinding? hy
  simp only [Function.comp_apply, Finding.mark, hstart, hstart']
  exact hne body hbody body' hbody'

theorem Separator.unrepeated_findings (options : Options) (h : o.Distinct) :
    Unrepeated layoutOpenings (findings t options o) := by
  refine unrepeated_layoutFindings (pairwise_separators h.inOrder options) ?_
  exact ((List.mergeSort_perm o.decls _).map _).nodup_iff.mpr h.nodup_starts_decls

theorem Check.nodup_marks_findings (c : Check) (h : o.Distinct) :
    ((c.findings t o).map Finding.mark).Nodup := by
  cases c with
  | closingBrace => exact (ClosingBrace.unrepeated_findings h).nodup
  | deferPlacement => exact (DeferPlacement.unrepeated_findings h).nodup
  | signatureGap => exact SignatureGap.nodup_marks_findings h
  | separatorGroups options => exact (Separator.unrepeated_findings options h).nodup

/-! ## Several rules -/

/-- What tells two violations of a file apart: the rule, the offset and the message. -/
def Violation.mark (v : Violation) : String × Nat × String :=
  (v.rule, v.location.offset, v.message)

theorem Rule.map_mark_violations (r : Rule) (t : SourceText) (file : String) (o : Outline) :
    (r.violations t file o).map Violation.mark =
      ((r.check.findings t o).map Finding.mark).map fun m => (r.name, m) := by
  rw [violations, List.map_map, List.map_map]
  rfl

/-- Rules of different names, run one after the other over an outline that lists each thing once,
report no violation twice. -/
theorem Rule.nodup_marks_violations (t : SourceText) (file : String) (o : Outline)
    (h : o.Distinct) (rules : List Rule) (hrules : (rules.map Rule.name).Nodup) :
    ((rules.flatMap fun r => r.violations t file o).map Violation.mark).Nodup := by
  rw [List.map_flatMap, List.nodup_flatMap]
  refine ⟨fun r _ => ?_, ?_⟩
  · rw [map_mark_violations]
    exact (r.check.nodup_marks_findings h).map fun _ _ heq => (Prod.mk.inj heq).2
  · refine (List.pairwise_map.mp hrules).imp fun {r r'} hne m hm hm' => hne ?_
    simp only [map_mark_violations] at hm hm'
    obtain ⟨_, -, rfl⟩ := List.mem_map.mp hm
    obtain ⟨_, -, heq⟩ := List.mem_map.mp hm'
    exact (Prod.mk.inj heq).1.symm

def denseText : SourceText :=
  { chars := ("package a\n//\nfunc F(\n) \x7b\x7b\ng()\n\ndefer g()\n\n\x7d\x7d\n" ++
    "func f() \x7b\n\x7d\n").toList }

def denseOutline : Outline where
  package := ⟨0, 9⟩
  comments := [⟨⟨10, 12⟩, "//"⟩]
  decls := [.func ⟨⟨13, 44⟩, "F", none, ⟨19, 22⟩, [], some ⟨23, 43, some 24, [.other]⟩⟩,
    .func ⟨⟨45, 57⟩, "f", none, ⟨51, 53⟩, [], some ⟨54, 56, none, []⟩⟩]
  blocks := [⟨23, 43, .functionBody⟩, ⟨24, 42, .statement⟩, ⟨54, 56, .functionBody⟩]
  defers := [⟨31, 40⟩]

def denseRules : List Rule :=
  [⟨.closingBrace, .error⟩, ⟨.deferPlacement, .error⟩, ⟨.signatureGap, .error⟩,
    ⟨.separatorGroups { width := 2 }, .warning⟩]

theorem Rule.nodup_marks_violations_dense :
    denseOutline.Distinct ∧ (denseRules.map Rule.name).Nodup ∧
      (violations ⟨.deferPlacement, .error⟩ denseText "a.go" denseOutline).length = 1 ∧
      (violations ⟨.signatureGap, .error⟩ denseText "a.go" denseOutline).length = 1 ∧
      ((denseRules.flatMap fun r => r.violations denseText "a.go" denseOutline).map
        Violation.mark).Nodup := by
  have hdistinct : denseOutline.Distinct := by constructor <;> decide
  have hrules : (denseRules.map Rule.name).Nodup := by decide
  exact ⟨hdistinct, hrules, by decide +kernel, by decide +kernel,
    nodup_marks_violations denseText "a.go" denseOutline hdistinct denseRules hrules⟩

end LayoutLint
