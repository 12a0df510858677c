import LayoutLint.Guarded.Rules
import LayoutLint.Proofs.Guarded.ClosingBrace
import LayoutLint.Proofs.Guarded.Separator

/-! # Rules run to the end

An outline may come from anywhere: its spans may be reversed, overlap, lie past the end of the
text or cut a character. As long as every offset has a word after it and everything is in memory,
no step of a rule stops, and what the steps give is what the rule reports.
-/

namespace LayoutLint

/-! ## Offsets -/

def Span.offsets (s : Span) : List Nat := [s.start, s.stop]

def FuncBody.offsets (b : FuncBody) : List Nat := b.lbrace :: b.rbrace :: b.firstStmt.toList

def FuncDecl.offsets (f : FuncDecl) : List Nat :=
  f.span.offsets ++ f.params.offsets ++ f.body.elim [] FuncBody.offsets

def Decl.offsets : Decl → List Nat
  | gen span _ _ => span.offsets
  | func decl => decl.offsets
  | unrecognized span _ => span.offsets

theorem Decl.offsets_span_subset (d : Decl) : d.span.offsets ⊆ d.offsets := by
  cases d with
  | gen span keyword specs => exact fun x hx => hx
  | func decl =>
    intro x hx
    exact List.mem_append_left _ (List.mem_append_left _ hx)
  | unrecognized span kind => exact fun x hx => hx

def Outline.offsets (o : Outline) : List Nat :=
  o.package.offsets ++ o.imports.flatMap Span.offsets ++ o.decls.flatMap Decl.offsets ++
    o.comments.flatMap (·.span.offsets) ++ o.blocks.flatMap (fun b => [b.lbrace, b.rbrace]) ++
    o.defers.flatMap Span.offsets

/-- The offsets that a check steps past have a word after them. -/
def Outline.HasRoom (o : Outline) : Check → Prop
  | .closingBrace => ∀ b ∈ o.blocks, b.rbrace + 1 < Word.count
  | .separatorGroups _ =>
    (∀ c ∈ o.comments, c.span.start + 1 < Word.count) ∧
      ∀ d ∈ o.decls, d.span.start + 1 < Word.count
  | .deferPlacement => True
  | .signatureGap => True

theorem Outline.hasRoom_of_offsets {o : Outline} (h : ∀ x ∈ o.offsets, x ≤ Word.count - 2)
    (c : Check) : o.HasRoom c := by
  have hroom : ∀ x ∈ o.offsets, x + 1 < Word.count := by
    intro x hx
    have hle := h x hx
    unfold Word.count at *
    omega
  cases c with
  | closingBrace =>
    intro b hb
    have hmem : b.rbrace ∈ o.blocks.flatMap fun b => [b.lbrace, b.rbrace] :=
      List.mem_flatMap.mpr ⟨b, hb, by simp⟩
    exact hroom _ (by simp only [offsets, List.mem_append, hmem, true_or, or_true])
  | separatorGroups options =>
    refine ⟨fun c hc => hroom _ ?_, fun d hd => hroom _ ?_⟩
    · have hmem : c.span.start ∈ o.comments.flatMap (·.span.offsets) :=
        List.mem_flatMap.mpr ⟨c, hc, by simp [Span.offsets]⟩
      simp only [offsets, List.mem_append, hmem, true_or, or_true]
    · have hmem : d.span.start ∈ o.decls.flatMap Decl.offsets :=
        List.mem_flatMap.mpr ⟨d, hd, Decl.offsets_span_subset d (by simp [Span.offsets])⟩
      simp only [offsets, List.mem_append, hmem, true_or, or_true]
  | deferPlacement => trivial
  | signatureGap => trivial

namespace Guarded

/-! ## Placement of `defer` -/

namespace DeferPlacement

open LayoutLint.DeferPlacement

variable (t : SourceText)

theorem isMisplaced_ok (bodies : List Nat) (d : Nat) :
    isMisplaced t bodies d = .ok (LayoutLint.DeferPlacement.isMisplaced t bodies d) := by
  rw [isMisplaced, LayoutLint.DeferPlacement.isMisplaced]
  by_cases h₁ : 1 ≤ d
  · by_cases h₂ : 2 ≤ d
    · cases hb : t.isBlankLine (d - 1) <;> simp [h₁, h₂, sub_ok, hb]
    · cases hb : t.isBlankLine (d - 1) <;> simp [h₁, h₂, sub_ok, hb]
  · simp [h₁]

theorem findingsWith_ok (bodies : List Nat) (o : Outline) :
    findingsWith t bodies o = .ok (LayoutLint.DeferPlacement.findingsWith t bodies o) := by
  have hmisplaced : ∀ s ∈ o.defers, (do isMisplaced t bodies (← lineOf t s.start)) =
      .ok (LayoutLint.DeferPlacement.isMisplaced t bodies (t.lineAt s.start)) := by
    intro s _
    rw [lineOf_ok, ok_bind, isMisplaced_ok]
  rw [findingsWith, filter_ok hmisplaced]
  rfl

theorem findings_ok (o : Outline) :
    findings t o = .ok (LayoutLint.DeferPlacement.findings t o) := by
  rw [findings, bodyLines, mapM_ok fun b _ => lineOf_ok t b.lbrace, ok_bind, findingsWith_ok]
  rfl

end DeferPlacement

/-! ## The gap after a signature -/

namespace SignatureGap

open LayoutLint.SignatureGap

variable (t : SourceText)

theorem isMultiline_ok (s : Span) :
    isMultiline t s = .ok (LayoutLint.SignatureGap.isMultiline t s) := by
  rw [isMultiline, LayoutLint.SignatureGap.isMultiline]
  split
  case isTrue hempty => simp [hempty]
  case isFalse hempty =>
    have hpos : 1 ≤ s.stop := by
      simp only [Span.isEmpty, Span.length, beq_iff_eq] at hempty
      omega
    simp [hempty, sub_ok hpos, lineOf_ok]

theorem gap_ok (comments : List Comment) (b : FuncBody) :
    gap t comments b = .ok (LayoutLint.SignatureGap.gap t comments b) := by
  rw [gap, lineOf_ok, ok_bind, lineOf_ok, ok_bind, mapM_ok fun c _ => lineOf_ok t c.span.start]
  rfl

theorem functionFinding?_ok (comments : List Comment) (f : FuncDecl) :
    functionFinding? t comments f =
      .ok (LayoutLint.SignatureGap.functionFinding? t comments f) := by
  rw [functionFinding?, LayoutLint.SignatureGap.functionFinding?]
  cases f.body with
  | none => rfl
  | some body =>
    simp only [isMultiline_ok, gap_ok, ok_bind]
    cases LayoutLint.SignatureGap.isMultiline t f.params with
    | false => rfl
    | true =>
      rcases Nat.lt_trichotomy (LayoutLint.SignatureGap.gap t comments body) 2 with
        hlt | heq | hgt
      · simp [hlt, Nat.ne_of_lt hlt]
      · simp [heq]
      · have hsub := sub_ok (by omega : 1 ≤ LayoutLint.SignatureGap.gap t comments body)
        simp [hsub, Nat.ne_of_gt hgt, Nat.lt_asymm hgt]

theorem findings_ok (o : Outline) :
    findings t o = .ok (LayoutLint.SignatureGap.findings t o) := by
  rw [findings, mapM_ok fun f _ => functionFinding?_ok t o.comments f, ok_bind,
    List.filterMap_map]
  rfl

end SignatureGap

/-! ## Rules -/

variable (t : SourceText)

/-- The text, the lists of the outline and the token of the separators are in memory. -/
structure InMemory (c : Check) (o : Outline) : Prop where
  text : t.size < capacity
  comments : o.comments.length < capacity
  blocks : o.blocks.length < capacity
  token : ∀ options, c = .separatorGroups options → options.width < capacity

theorem findings_ok {t} {c : Check} {o : Outline} (hm : InMemory t c o) (ho : o.HasRoom c) :
    findings t c o = .ok (c.findings t o) := by
  cases c with
  | closingBrace =>
    exact ClosingBrace.findings_ok hm.text (Nat.lt_trans hm.blocks (by decide)) ho
  | deferPlacement => exact DeferPlacement.findings_ok t o
  | signatureGap => exact SignatureGap.findings_ok t o
  | separatorGroups options =>
    exact Separator.findings_ok hm.text (hm.token options rfl) hm.comments ho.1 ho.2

theorem violations_ok {t} {r : Rule} {o : Outline} (hm : InMemory t r.check o)
    (ho : o.HasRoom r.check) (file : String) :
    violations t r file o = .ok (r.violations t file o) := by
  have hreport : ∀ f, report t r file f = .ok (r.report t file f) := by
    intro f
    rw [report, location_ok hm.text]
    rfl
  rw [violations, findings_ok hm ho, ok_bind, mapM_ok fun f _ => hreport f]
  rfl

/-- If every offset has a word after it, no step of a rule stops. -/
theorem violations_eq_ok (r : Rule) (file : String) (o : Outline) (hm : InMemory t r.check o)
    (ho : ∀ x ∈ o.offsets, x ≤ Word.count - 2) :
    violations t r file o = .ok (r.violations t file o) :=
  violations_ok hm (Outline.hasRoom_of_offsets ho r.check) file

def crooked : Outline where
  package := ⟨Word.count - 2, 0⟩
  decls := [.unrecognized ⟨Word.count - 2, 3⟩ "?"]
  comments := [⟨⟨20, 2⟩, "//"⟩, ⟨⟨9, 10⟩, "//"⟩]
  blocks := [⟨Word.count - 2, 0, .functionBody⟩, ⟨0, Word.count - 2, .statement⟩]
  defers := [⟨Word.count - 2, 1⟩]

theorem violations_eq_ok_crooked :
    violations (SourceText.ofString "package é\n") ⟨.separatorGroups { width := 2 }, .error⟩
        "a.go" crooked =
      .ok (Rule.violations ⟨.separatorGroups { width := 2 }, .error⟩
        (SourceText.ofString "package é\n") "a.go" crooked) := by
  refine violations_eq_ok _ _ _ _ ⟨by decide, by decide, by decide, ?_⟩ (by decide)
  rintro options h
  cases h
  decide

-- The bound is sharp: the brace at the last word has no word after it.
example :
    violations (SourceText.ofString "\x7d") ⟨.closingBrace, .error⟩ "a.go"
      { blocks := [⟨0, Word.count - 1, .statement⟩, ⟨0, Word.count - 1, .statement⟩] } =
        .error .overflow := by
  decide

end Guarded

end LayoutLint
