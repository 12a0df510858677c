import LayoutLint.Proofs.Outline.WellFormed
import LayoutLint.Proofs.Text.Between
import LayoutLint.Rule

/-! # Defers below a blank line

A `defer` below a blank line passes if a function body opens on the line above that. The rule knows
the lines of the bodies and not the bodies, so the `defer` need not be the first thing in one: more
may stand on the line after the brace, and on the line before the `defer`.
-/

namespace LayoutLint

namespace DeferPlacement

variable {t : SourceText} {o : Outline} {b : Block} {s : Span}

/-- The rule reports nothing at the span. -/
def Passes (severity : Severity) (t : SourceText) (file : String) (o : Outline) (s : Span) : Prop :=
  ∀ v ∈ Rule.violations ⟨.deferPlacement, severity⟩ t file o, v.location ≠ t.location file s

/-- The block is a function body that opens two lines above the start of the span. -/
def OpensAbove (t : SourceText) (b : Block) (s : Span) : Prop :=
  b.kind = .functionBody ∧ t.lineAt b.lbrace + 2 = t.lineAt s.start

instance : Decidable (OpensAbove t b s) := inferInstanceAs (Decidable (_ ∧ _))

/-! ## What the rule looks at -/

theorem isMisplaced_eq_false_iff (hline : 1 ≤ t.lineAt s.start)
    (hblank : t.isBlankLine (t.lineAt s.start - 1) = true) :
    isMisplaced t (bodyLines t o) (t.lineAt s.start) = false ↔
      ∃ b ∈ o.blocks, OpensAbove t b s := by
  have hbody : ∀ d, d ∈ bodyLines t o ↔
      ∃ b ∈ o.blocks, b.kind = .functionBody ∧ t.lineAt b.lbrace = d := by
    intro d
    simp only [bodyLines, List.mem_map, List.mem_filter, decide_eq_true_eq, and_assoc]
  simp only [isMisplaced, hline, hblank, decide_true, Bool.true_and, Bool.not_eq_false',
    Bool.and_eq_true, decide_eq_true_eq, List.contains_iff_mem, hbody]
  constructor
  · rintro ⟨htwo, b, hb, hkind, hopen⟩
    exact ⟨b, hb, hkind, by omega⟩
  · rintro ⟨b, hb, hkind, hopen⟩
    exact ⟨by omega, b, hb, hkind, by omega⟩

theorem passes_iff_not_misplaced (severity : Severity) (file : String) (hs : s ∈ o.defers) :
    Passes severity t file o s ↔
      isMisplaced t (bodyLines t o) (t.lineAt s.start) = false := by
  constructor
  · intro hpasses
    rw [← Bool.not_eq_true]
    intro hmisplaced
    refine hpasses _ (List.mem_map.mpr ⟨_, List.mem_map.mpr ⟨s, ?_, rfl⟩, rfl⟩) rfl
    exact List.mem_filter.mpr ⟨hs, hmisplaced⟩
  · intro hplaced v hv hlocation
    obtain ⟨f, hf, rfl⟩ := List.mem_map.mp hv
    obtain ⟨s', hs', rfl⟩ := List.mem_map.mp hf
    have hstart : s'.start = s.start := congrArg Location.offset hlocation
    have hmisplaced := (List.mem_filter.mp hs').2
    rw [hstart, hplaced] at hmisplaced
    cases hmisplaced

/-! ## What stands between the brace and the defer -/

/-- From the brace to the `defer` there is the rest of a line, a blank line and the beginning of
another line. -/
theorem exists_between (hbrace : Text.slice? t.chars b.lbrace (b.lbrace + 1) = some ['\x7b'])
    (hs : (Text.dropBytes s.start t.chars).isSome = true) (hopens : OpensAbove t b s)
    (hblank : t.isBlankLine (t.lineAt s.start - 1) = true) :
    ∃ tail blank head,
      Text.slice? t.chars (b.lbrace + 1) s.start = some (tail ++ '\n' :: (blank ++ '\n' :: head)) ∧
        '\n' ∉ tail ∧ '\n' ∉ head ∧ Text.allBlank blank = true := by
  obtain ⟨pre, post, hpre, hlbrace⟩ := Text.exists_append_of_slice? hbrace
  obtain ⟨below, hdrop⟩ := Option.isSome_iff_exists.mp hs
  obtain ⟨above, habove, hstart⟩ := Text.exists_append_of_dropBytes hdrop
  have hlt : b.lbrace < s.start := by
    refine Nat.lt_of_not_le fun hle => ?_
    have hmono := t.lineAt_mono hle
    have hlines := hopens.2
    omega
  have hsize : Text.byteLength (pre ++ ['\x7b']) = b.lbrace + 1 := by
    rw [Text.byteLength_append, hlbrace]
    rfl
  have hsame : (pre ++ ['\x7b']) ++ post = above ++ below := by
    rw [List.append_assoc, ← hpre, ← habove]
  obtain ⟨between, rfl⟩ := Text.exists_append_of_byteLength_le hsame (by omega)
  have hchars : t.chars = pre ++ '\x7b' :: (between ++ below) := by
    rw [habove]
    simp only [List.append_assoc, List.cons_append, List.nil_append]
  have hfull : pre ++ '\x7b' :: between = pre ++ ['\x7b'] ++ between := by
    rw [List.append_assoc]
    rfl
  obtain ⟨tail, blank, head, hbetween, hparts⟩ := t.exists_lines_between (by decide) hchars
    (by rw [hfull, hstart, hlbrace]; exact hopens.2) (by rw [hfull, hstart]; exact hblank)
  refine ⟨tail, blank, head, ?_, hparts⟩
  have hslice := Text.slice?_append (pre ++ ['\x7b']) between below
  rwa [← List.append_assoc, ← habove, ← Text.byteLength_append, hstart, hsize, hbetween] at hslice

/-! ## Defers that pass -/

/-- A `defer` below a blank line passes exactly if a function body opens two lines above it. Where
the brace of the body stands in the text and the `defer` starts at a character, only blanks stand
between them exactly if only blanks follow the brace on its line and only blanks come before the
`defer` on its own. -/
theorem passes_iff_opensAbove (t : SourceText) (severity : Severity) (file : String) (o : Outline)
    (s : Span) (hs : s ∈ o.defers) (hline : 1 ≤ t.lineAt s.start)
    (hblank : t.isBlankLine (t.lineAt s.start - 1) = true) :
    (Passes severity t file o s ↔ ∃ b ∈ o.blocks, OpensAbove t b s) ∧
    ∀ b ∈ o.blocks, OpensAbove t b s →
      Text.slice? t.chars b.lbrace (b.lbrace + 1) = some ['\x7b'] →
      (Text.dropBytes s.start t.chars).isSome = true →
      ∃ tail blank head, '\n' ∉ tail ∧ '\n' ∉ head ∧
        Text.slice? t.chars (b.lbrace + 1) s.start =
          some (tail ++ '\n' :: (blank ++ '\n' :: head)) ∧
        (Text.allBlank (tail ++ '\n' :: (blank ++ '\n' :: head)) = true ↔
          Text.allBlank tail = true ∧ Text.allBlank head = true) := by
  refine ⟨?_, fun b _ hopens hbrace hstart => ?_⟩
  · rw [passes_iff_not_misplaced severity file hs, isMisplaced_eq_false_iff hline hblank]
  · obtain ⟨tail, blank, head, hslice, htail, hhead, hmid⟩ :=
      exists_between hbrace hstart hopens hblank
    refine ⟨tail, blank, head, htail, hhead, hslice, ?_⟩
    have hfeed : ∀ cs, Text.allBlank ('\n' :: cs) = Text.allBlank cs := fun cs => rfl
    rw [Text.allBlank_append, hfeed, Text.allBlank_append, hfeed, hmid, Bool.true_and,
      Bool.and_eq_true]

def openingText : SourceText :=
  { chars := "package a\n\nfunc f(\n\tb int,\n) \x7b\n\n\tdefer g()\n\x7d\n".toList }

def openingOutline : Outline where
  package := ⟨0, 9⟩
  blocks := [⟨29, 43, .functionBody⟩]
  defers := [⟨33, 42⟩]

theorem passes_iff_opensAbove_opening :
    ⟨33, 42⟩ ∈ openingOutline.defers ∧
      Passes .error openingText "a.go" openingOutline ⟨33, 42⟩ ∧
      ∃ tail blank head,
        Text.slice? openingText.chars 30 33 = some (tail ++ '\n' :: (blank ++ '\n' :: head)) := by
  have hs : ⟨33, 42⟩ ∈ openingOutline.defers := by decide
  have hb : ⟨29, 43, .functionBody⟩ ∈ openingOutline.blocks := by decide
  have hopens : OpensAbove openingText ⟨29, 43, .functionBody⟩ ⟨33, 42⟩ := by decide +kernel
  obtain ⟨hpasses, hbetween⟩ := passes_iff_opensAbove openingText .error "a.go" openingOutline
    ⟨33, 42⟩ hs (by decide +kernel) (by decide +kernel)
  obtain ⟨tail, blank, head, -, -, hslice, -⟩ :=
    hbetween _ hb hopens (by decide +kernel) (by decide +kernel)
  exact ⟨hs, hpasses.mpr ⟨_, hb, hopens⟩, tail, blank, head, hslice⟩

def literalAbove : SourceText :=
  { chars := ("package a\n\nfunc f() \x7b\n\tg := func() \x7b\x7d\n\n" ++
      "\tdefer g()\n\x7d\n").toList }

/-- The body of the literal opens two lines above the `defer`, which stands outside of it. -/
theorem not_forall_passes_opens_body :
    ¬ ∀ (t : SourceText) (severity : Severity) (file : String),
      ∀ s ∈ (Outline.ofText t.chars).defers, 1 ≤ t.lineAt s.start →
        t.isBlankLine (t.lineAt s.start - 1) = true →
        Passes severity t file (Outline.ofText t.chars) s →
        ∃ b ∈ (Outline.ofText t.chars).blocks, OpensAbove t b s ∧
          ∃ between, Text.slice? t.chars (b.lbrace + 1) s.start = some between ∧
            Text.allBlank between = true := by
  intro h
  have hs : ⟨40, 49⟩ ∈ (Outline.ofText literalAbove.chars).defers := by decide +kernel
  have hline : 1 ≤ literalAbove.lineAt 40 := by decide +kernel
  have hblank : literalAbove.isBlankLine (literalAbove.lineAt 40 - 1) = true := by decide +kernel
  have hblocks : (Source.parse? (Source.tokens literalAbove.chars)).elim []
      (fun root => (Outline.nested root).blocks) =
        [⟨35, 36, .functionBody⟩, ⟨20, 50, .functionBody⟩] := by decide +kernel
  have hb : ⟨35, 36, .functionBody⟩ ∈ (Outline.ofText literalAbove.chars).blocks := by
    rw [Outline.mem_blocks_ofText_iff, hblocks]
    exact .head _
  have hopen : OpensAbove literalAbove ⟨35, 36, .functionBody⟩ ⟨40, 49⟩ := by decide +kernel
  have hpasses : Passes .error literalAbove "a.go" (Outline.ofText literalAbove.chars) ⟨40, 49⟩ :=
    (passes_iff_not_misplaced .error "a.go" hs).mpr
      ((isMisplaced_eq_false_iff (s := ⟨40, 49⟩) hline hblank).mpr ⟨_, hb, hopen⟩)
  obtain ⟨b, hmem, hopens, between, hslice, hbetween⟩ := h _ _ _ _ hs hline hblank hpasses
  rw [Outline.mem_blocks_ofText_iff, hblocks] at hmem
  have hnone : ∀ b ∈ [⟨35, 36, .functionBody⟩, ⟨20, 50, .functionBody⟩],
      OpensAbove literalAbove b ⟨40, 49⟩ →
        (Text.slice? literalAbove.chars (b.lbrace + 1) 40).any Text.allBlank = false := by
    decide +kernel
  have hfalse := hnone b hmem hopens
  rw [hslice, Option.any_some, hbetween] at hfalse
  cases hfalse

end DeferPlacement

end LayoutLint
