import LayoutLint.Rules.ClosingBrace
import LayoutLint.Rules.SignatureGap

/-! # The blank line after a signature

One rule asks for a blank line below the opening brace of a body, another forbids one above the
closing brace. They meet when the two braces are two lines apart: the blank line is then both.
-/

namespace LayoutLint

variable {t : SourceText} {o : Outline} {offset : Nat}

/-- Each function body is listed among the blocks. -/
def Outline.ListsBodies (o : Outline) : Prop :=
  ∀ f ∈ o.functions, ∀ body, f.body = some body →
    ⟨body.lbrace, body.rbrace, .functionBody⟩ ∈ o.blocks

/-- Of the lines between `above` and `below`, the first is blank and no other. -/
def SourceText.OnlyFirstBlank (t : SourceText) (above below : Nat) : Prop :=
  above + 1 < below ∧ ∀ i, above < i → i < below → (t.isBlankLine i = true ↔ i = above + 1)

instance (t : SourceText) (above below : Nat) : Decidable (t.OnlyFirstBlank above below) :=
  decidable_of_iff
    (above + 1 < below ∧ ∀ i < below, above < i → (t.isBlankLine i = true ↔ i = above + 1))
    (and_congr_right fun _ => forall_congr' fun _ => forall_comm)

namespace ClosingBrace

/-- A blank line before the closing brace at `offset` is reported. -/
def ReportsBlankBefore (t : SourceText) (o : Outline) (offset : Nat) : Prop :=
  ∃ f ∈ findings t o, f.message = blankBefore ∧ f.span = braceSpan offset

theorem mem_blockFindings_blankBefore_iff {b : Block} {f : Finding} :
    (f ∈ blockFindings t b ∧ f.message = blankBefore) ↔
      hasBlankBefore t b = true ∧ f = blankBeforeAt (braceSpan b.rbrace) := by
  have hne : missingAfter ≠ blankBefore := by decide
  rw [blockFindings, List.mem_append]
  constructor
  · rintro ⟨hf | hf, hm⟩ <;> split at hf
    · exact ⟨‹_›, List.mem_singleton.mp hf⟩
    · exact absurd hf List.not_mem_nil
    · rw [List.mem_singleton.mp hf] at hm
      exact absurd hm hne
    · exact absurd hf List.not_mem_nil
  · rintro ⟨hb, rfl⟩
    exact ⟨.inl (by simp [hb]), rfl⟩

theorem message_ne_of_mem_multipleFindings {blocks : List Block} {f : Finding}
    (h : f ∈ multipleFindings t blocks) : f.message ≠ blankBefore := by
  simp only [multipleFindings, List.mem_filterMap] at h
  obtain ⟨line, -, hl⟩ := h
  split at hl
  · cases hl
    exact (by decide : multipleCloses ≠ blankBefore)
  · cases hl

theorem reportsBlankBefore_iff :
    ReportsBlankBefore t o offset ↔
      ∃ b ∈ o.blocks, b.rbrace = offset ∧ hasBlankBefore t b = true := by
  constructor
  · rintro ⟨f, hf, hm, hs⟩
    rcases List.mem_append.mp hf with hf | hf
    · obtain ⟨b, hb, hf⟩ := List.mem_flatMap.mp hf
      obtain ⟨hblank, rfl⟩ := mem_blockFindings_blankBefore_iff.mp ⟨hf, hm⟩
      exact ⟨b, hb, congrArg Span.start hs, hblank⟩
    · exact absurd hm (message_ne_of_mem_multipleFindings hf)
  · rintro ⟨b, hb, rfl, hblank⟩
    obtain ⟨hf, hm⟩ := mem_blockFindings_blankBefore_iff.mpr ⟨hblank, rfl⟩
    exact ⟨_, List.mem_append_left _ (List.mem_flatMap.mpr ⟨b, hb, hf⟩), hm, rfl⟩

/-- The rule looks at the braces only through their lines. -/
theorem hasBlankBefore_iff {b : Block} :
    hasBlankBefore t b = true ↔
      t.lineAt b.lbrace + 2 ≤ t.lineAt b.rbrace ∧
        t.isBlankLine (t.lineAt b.rbrace - 1) = true := by
  rw [hasBlankBefore, Bool.and_eq_true, decide_eq_true_eq]

end ClosingBrace

namespace SignatureGap

variable {comments : List Comment} {f : FuncDecl} {body : FuncBody}

theorem functionFinding?_eq_none_iff (hbody : f.body = some body)
    (hm : isMultiline t f.params = true) :
    functionFinding? t comments f = none ↔ gap t comments body = 2 := by
  rw [functionFinding?, hbody]
  simp [hm]

theorem gap_of_empty (hfirst : body.firstStmt = none)
    (hc : ∀ c ∈ comments, ¬ (t.lineAt body.lbrace < t.lineAt c.span.start ∧
      t.lineAt c.span.start < t.lineAt body.rbrace)) :
    gap t comments body = t.lineAt body.rbrace - t.lineAt body.lbrace := by
  have hoffset : firstOffset body = body.rbrace := by rw [firstOffset, hfirst]; rfl
  have hfind : (comments.map fun c => t.lineAt c.span.start).find? (fun l =>
      t.lineAt body.lbrace < l && l < t.lineAt body.rbrace) = none := by
    rw [List.find?_eq_none, List.forall_mem_map]
    intro c hm
    simpa using hc c hm
  rw [gap, firstLine, hoffset, hfind]
  rfl

end SignatureGap

open ClosingBrace SignatureGap

/-- When the blank line that a signature asks for is the only one in the body, the closing brace
is reported for it exactly if it stands two lines below the opening brace. A body with neither
statements nor comments has no other layout. -/
theorem reportsBlankBefore_iff_two_lines_below (t : SourceText) (o : Outline) (f : FuncDecl)
    (body : FuncBody) (hlist : o.ListsBodies) (hf : f ∈ o.functions) (hbody : f.body = some body)
    (hm : isMultiline t f.params = true) (hgap : functionFinding? t o.comments f = none)
    (hblank : t.OnlyFirstBlank (t.lineAt body.lbrace) (t.lineAt body.rbrace)) :
    (ReportsBlankBefore t o body.rbrace ↔
      t.lineAt body.rbrace = t.lineAt body.lbrace + 2) ∧
    (body.firstStmt = none →
      (∀ c ∈ o.comments, ¬ (t.lineAt body.lbrace < t.lineAt c.span.start ∧
        t.lineAt c.span.start < t.lineAt body.rbrace)) →
      t.lineAt body.rbrace = t.lineAt body.lbrace + 2) := by
  obtain ⟨hlt, honly⟩ := hblank
  refine ⟨?_, fun hfirst hc => ?_⟩
  · rw [reportsBlankBefore_iff]
    constructor
    · rintro ⟨b, -, hr, hb⟩
      rw [hasBlankBefore_iff, hr] at hb
      have := (honly (t.lineAt body.rbrace - 1) (by omega) (by omega)).mp hb.2
      omega
    · intro he
      refine ⟨_, hlist f hf body hbody, rfl, hasBlankBefore_iff.mpr ⟨by simp [he], ?_⟩⟩
      exact (honly _ (by simp [he]) (by simp [he])).mpr (by simp [he])
  · rw [functionFinding?_eq_none_iff hbody hm, gap_of_empty hfirst hc] at hgap
    omega

theorem reportsBlankBefore_iff_two_lines_below_statement :
    let t := SourceText.ofString "func f(\n\ta int,\n) \x7b\n\n\tg()\n\x7d\n"
    let body : FuncBody := ⟨18, 26, some 22, [.other]⟩
    let f : FuncDecl := ⟨⟨0, 27⟩, "f", none, ⟨6, 17⟩, [], some body⟩
    let o : Outline := { decls := [.func f], blocks := [⟨18, 26, .functionBody⟩] }
    o.ListsBodies ∧ f ∈ o.functions ∧ isMultiline t f.params = true ∧
      functionFinding? t o.comments f = none ∧
      t.OnlyFirstBlank (t.lineAt body.lbrace) (t.lineAt body.rbrace) ∧
      ¬ ReportsBlankBefore t o body.rbrace := by
  intro t body f o
  have hlist : o.ListsBodies := by
    simp [Outline.ListsBodies, o, f, body, Outline.functions, Decl.func?]
  have hf : f ∈ o.functions := List.mem_cons_self
  have hm : isMultiline t f.params = true := by decide
  have hgap : functionFinding? t o.comments f = none := by decide
  have hblank : t.OnlyFirstBlank (t.lineAt body.lbrace) (t.lineAt body.rbrace) := by decide
  obtain ⟨hiff, -⟩ := reportsBlankBefore_iff_two_lines_below t o f body hlist hf rfl hm hgap hblank
  exact ⟨hlist, hf, hm, hgap, hblank, mt hiff.mp (by decide)⟩

/-- With nothing in the body, the blank line that one rule requires the other forbids. -/
theorem not_forall_signature_blank_allowed :
    ¬ ∀ (t : SourceText) (o : Outline) (f : FuncDecl) (body : FuncBody), o.ListsBodies →
      f ∈ o.functions → f.body = some body → isMultiline t f.params = true →
      functionFinding? t o.comments f = none →
      t.OnlyFirstBlank (t.lineAt body.lbrace) (t.lineAt body.rbrace) →
      ¬ ReportsBlankBefore t o body.rbrace := by
  intro h
  let t := SourceText.ofString "package a\n\nfunc f(\n\ta int,\n) \x7b\n\n\x7d\n"
  let body : FuncBody := ⟨29, 32, none, []⟩
  let f : FuncDecl := ⟨⟨11, 33⟩, "f", none, ⟨17, 28⟩, [], some body⟩
  let o : Outline :=
    { package := ⟨0, 9⟩, decls := [.func f], blocks := [⟨29, 32, .functionBody⟩] }
  have hlist : o.ListsBodies := by
    simp [Outline.ListsBodies, o, f, body, Outline.functions, Decl.func?]
  refine h t o f body hlist List.mem_cons_self rfl (by decide) (by decide) (by decide) ?_
  exact reportsBlankBefore_iff.mpr ⟨_, List.mem_cons_self, rfl, by decide⟩

end LayoutLint
