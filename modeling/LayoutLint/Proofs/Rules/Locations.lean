import LayoutLint.Proofs.Guarded.ClosingBrace
import LayoutLint.Proofs.Separator.Ends
import LayoutLint.Proofs.Text.Position
import LayoutLint.Rule

/-! # Where violations stand

A rule stamps each finding with its own name and with the place at which the finding starts. If the
offsets of the outline lie in the text, so does everything that is reported.
-/

namespace LayoutLint

variable {t : SourceText} {o : Outline} {n : Nat}

/-! ## Outlines that fit a text -/

/-- Both ends lie in a text of `n` bytes. The span may be reversed. -/
def Span.EndsBy (s : Span) (n : Nat) : Prop := s.start ≤ n ∧ s.stop ≤ n

/-- The spans and the braces lie in a text of `n` bytes. -/
structure Outline.FitsIn (o : Outline) (n : Nat) : Prop where
  spans : ∀ s ∈ o.spans, s.start ≤ s.stop ∧ s.stop ≤ n
  blocks : ∀ b ∈ o.blocks, b.lbrace < n ∧ b.rbrace < n
  bodies : ∀ f ∈ o.functions, ∀ body ∈ f.body, body.lbrace < n ∧ body.rbrace < n

/-- The first statements of the bodies start in a text of `n` bytes. -/
def Outline.StatementsIn (o : Outline) (n : Nat) : Prop :=
  ∀ f ∈ o.functions, ∀ body ∈ f.body, ∀ first ∈ body.firstStmt, first ≤ n

theorem Outline.FitsIn.endsBy (h : o.FitsIn n) {s : Span} (hs : s ∈ o.spans) : s.EndsBy n :=
  ⟨Nat.le_trans (h.spans s hs).1 (h.spans s hs).2, (h.spans s hs).2⟩

theorem Outline.FitsIn.endsBy_decl (h : o.FitsIn n) {d : Decl} (hd : d ∈ o.decls) :
    d.span.EndsBy n :=
  h.endsBy (mem_spans_iff.mpr (.inr (.inr (.inl ⟨d, hd, d.span_mem_spans⟩))))

theorem Outline.FitsIn.endsBy_comment (h : o.FitsIn n) {c : Comment} (hc : c ∈ o.comments) :
    c.span.EndsBy n :=
  h.endsBy (mem_spans_iff.mpr (.inr (.inr (.inr (.inl ⟨c, hc, rfl⟩)))))

theorem Outline.FitsIn.endsBy_defer (h : o.FitsIn n) {s : Span} (hs : s ∈ o.defers) :
    s.EndsBy n :=
  h.endsBy (mem_spans_iff.mpr (.inr (.inr (.inr (.inr hs)))))

theorem Span.EndsBy.start_add_length_le {s : Span} (h : s.EndsBy n) : s.start + s.length ≤ n := by
  obtain ⟨hstart, hstop⟩ := h
  rw [length]
  omega

/-! ## Findings in the text -/

namespace ClosingBrace

theorem endsBy_braceSpan {offset : Nat} (h : offset < n) : (braceSpan offset).EndsBy n :=
  ⟨Nat.le_of_lt h, h⟩

theorem endsBy_of_mem_blockFindings {b : Block} (hb : b.rbrace < n) {f : Finding}
    (hf : f ∈ blockFindings t b) : f.span.EndsBy n := by
  have hspan : f.span = braceSpan b.rbrace := by
    rw [blockFindings, List.mem_append] at hf
    rcases hf with hf | hf <;> split at hf <;> simp_all [blankBeforeAt, missingAfterAt]
  rw [hspan]
  exact endsBy_braceSpan hb

theorem endsBy_of_mem_multipleFindings {blocks : List Block} (hb : ∀ b ∈ blocks, b.rbrace < n)
    {f : Finding} (hf : f ∈ multipleFindings t blocks) : f.span.EndsBy n := by
  simp only [multipleFindings, List.mem_filterMap] at hf
  obtain ⟨line, -, hf⟩ := hf
  split at hf
  case h_1 first second rest hcloses =>
    cases hf
    have hfirst : first < n := by
      have hmem := hcloses ▸ List.mem_cons_self (a := first) (l := second :: rest)
      simp only [closesOn, List.mem_map, List.mem_filter] at hmem
      obtain ⟨_, ⟨⟨b, hmem, rfl⟩, -⟩, rfl⟩ := hmem
      exact hb b hmem
    have hle := Guarded.ClosingBrace.foldl_min_le first (second :: rest)
    exact endsBy_braceSpan (Nat.lt_of_le_of_lt hle hfirst)
  case h_2 => cases hf

theorem endsBy_of_mem_findings (h : o.FitsIn n) {f : Finding} (hf : f ∈ findings t o) :
    f.span.EndsBy n := by
  rcases List.mem_append.mp hf with hf | hf
  · obtain ⟨b, hb, hf⟩ := List.mem_flatMap.mp hf
    exact endsBy_of_mem_blockFindings (h.blocks b hb).2 hf
  · exact endsBy_of_mem_multipleFindings (fun b hb => (h.blocks b hb).2) hf

end ClosingBrace

theorem DeferPlacement.endsBy_of_mem_findings (h : o.FitsIn n) {f : Finding}
    (hf : f ∈ findings t o) : f.span.EndsBy n := by
  obtain ⟨s, hs, rfl⟩ := List.mem_map.mp hf
  exact h.endsBy_defer (List.mem_filter.mp hs).1

/-- The finding ends where the body starts, which the spans of the outline do not tell. -/
theorem SignatureGap.endsBy_of_mem_findings (h : o.FitsIn n) (hs : o.StatementsIn n) {f : Finding}
    (hf : f ∈ findings t o) : f.span.EndsBy n := by
  obtain ⟨decl, hdecl, hf⟩ := List.mem_filterMap.mp hf
  simp only [functionFinding?] at hf
  split at hf
  case h_1 => cases hf
  case h_2 body hbody =>
    obtain ⟨hl, hr⟩ := h.bodies decl hdecl body hbody
    have hfirst : firstOffset body ≤ n := by
      rw [firstOffset]
      cases hstmt : body.firstStmt with
      | none => exact Nat.le_of_lt hr
      | some first => exact hs decl hdecl body hbody first hstmt
    split at hf
    · cases hf
    · cases hf
      exact ⟨Nat.le_of_lt hl, hfirst⟩

namespace Separator

theorem endsBy_of_mem_emptySectionFindings {l : Layout} (h : ∀ s ∈ l.separators, s.EndsBy n)
    {f : Finding} (hf : f ∈ emptySectionFindings l) : f.span.EndsBy n := by
  simp only [emptySectionFindings, List.mem_filterMap] at hf
  obtain ⟨⟨current, next⟩, hpair, hf⟩ := hf
  rw [eq_of_emptySection?_eq_some hf]
  have hcurrent := h current (List.of_mem_zip hpair).1
  have hnext := h next (List.mem_of_mem_tail (List.of_mem_zip hpair).2)
  exact ⟨hcurrent.2, hnext.1⟩

theorem endsBy_of_mem_bucketFindings {testPrefixes : List String} {bucket : List Decl}
    (h : ∀ d ∈ bucket, d.span.EndsBy n) {f : Finding}
    (hf : f ∈ bucketFindings testPrefixes bucket) : f.span.EndsBy n := by
  obtain ⟨a, ha, b, hb, hspan⟩ := covers_of_mem_bucketFindings hf
  rw [hspan]
  exact ⟨(h a ha).1, (h b hb).2⟩

theorem endsBy_of_mem_layoutFindings {testPrefixes : List String} {l : Layout}
    (hpackage : l.package.start ≤ n) (hseps : ∀ s ∈ l.separators, s.EndsBy n)
    (hdecls : ∀ d ∈ l.decls, d.span.EndsBy n) {f : Finding}
    (hf : f ∈ layoutFindings t testPrefixes l) : f.span.EndsBy n := by
  have habout : ∀ bad message,
      f ∈ (l.separators.filter bad).map (fun s => (⟨s, message, none⟩ : Finding)) →
        f.span.EndsBy n := by
    intro bad message hf
    obtain ⟨s, hs, rfl⟩ := List.mem_map.mp hf
    exact hseps s (List.mem_filter.mp hs).1
  simp only [layoutFindings, List.mem_append] at hf
  rcases hf with ((((((hf | hf) | hf) | hf) | hf) | hf) | hf) | hf
  · rw [trailingFindings] at hf
    split at hf
    case h_1 s d hs hd =>
      split at hf
      · cases List.mem_singleton.mp hf
        exact hseps s (List.mem_of_getLast? hs)
      · cases hf
    case h_2 => cases hf
  · rw [leadingFindings] at hf
    split at hf
    case h_1 s hs hi =>
      split at hf
      · cases List.mem_singleton.mp hf
        exact hseps s (List.mem_of_head? hs)
      · cases hf
    case h_2 s i hs hi =>
      split at hf
      · cases List.mem_singleton.mp hf
        exact hseps s (List.mem_of_head? hs)
      · cases hf
    case h_3 => cases hf
  · exact habout _ _ hf
  · exact habout _ _ hf
  · exact habout _ _ hf
  · exact endsBy_of_mem_emptySectionFindings hseps hf
  · simp only [packageFindings] at hf
    split at hf
    · cases List.mem_singleton.mp hf
      exact ⟨hpackage, hpackage⟩
    · cases hf
  · obtain ⟨bucket, hbucket, hf⟩ := List.mem_flatMap.mp hf
    split at hf
    · cases hf
    · refine endsBy_of_mem_bucketFindings (fun d hd => hdecls d ?_) hf
      obtain ⟨i, -, rfl⟩ := List.mem_map.mp hbucket
      exact (List.mem_filter.mp hd).1

theorem endsBy_of_mem_findings {options : Options} (h : o.FitsIn n) {f : Finding}
    (hf : f ∈ findings t options o) : f.span.EndsBy n := by
  have hpackage : o.package.EndsBy n := h.endsBy (Outline.mem_spans_iff.mpr (.inl rfl))
  refine endsBy_of_mem_layoutFindings hpackage.1 ?_ (fun d hd => ?_) hf
  · exact ends_of_mem_separators (P := (· ≤ n)) (Q := (· ≤ n)) fun c hc => h.endsBy_comment hc
  · exact h.endsBy_decl (List.mem_mergeSort.mp hd)

end Separator

theorem Check.endsBy_of_mem_findings {c : Check} (h : o.FitsIn n) (hs : o.StatementsIn n)
    {f : Finding} (hf : f ∈ c.findings t o) : f.span.EndsBy n := by
  cases c with
  | closingBrace => exact ClosingBrace.endsBy_of_mem_findings h hf
  | deferPlacement => exact DeferPlacement.endsBy_of_mem_findings h hf
  | signatureGap => exact SignatureGap.endsBy_of_mem_findings h hs hf
  | separatorGroups options => exact Separator.endsBy_of_mem_findings h hf

/-! ## Violations -/

/-- The violation is one of the rule in the file, and its line and column, which count from one,
lead to its offset. -/
structure Violation.StandsIn (v : Violation) (t : SourceText) (r : Rule) (file : String) :
    Prop where
  code : v.code = r.code
  rule : v.rule = r.name
  category : v.category = r.check.category
  severity : v.severity = r.severity
  file : v.location.file = file
  line_pos : 0 < v.location.line
  column_pos : 0 < v.location.column
  marks : t.Marks ⟨v.location.line - 1, v.location.column - 1⟩ (min v.location.offset t.size)

theorem Rule.report_standsIn (r : Rule) (t : SourceText) (file : String) (f : Finding) :
    (r.report t file f).StandsIn t r file where
  code := rfl
  rule := rfl
  category := rfl
  severity := rfl
  file := rfl
  line_pos := Nat.succ_pos _
  column_pos := Nat.succ_pos _
  marks := t.marks_position f.span.start

/-- A violation stands where its location says, and within the text if the outline does. -/
theorem Rule.violations_stand (t : SourceText) (o : Outline) (r : Rule) (file : String)
    (v : Violation) (hv : v ∈ r.violations t file o) :
    v.StandsIn t r file ∧
      (o.FitsIn t.size → o.StatementsIn t.size →
        v.location.offset + v.location.length ≤ t.size) := by
  obtain ⟨f, hf, rfl⟩ := List.mem_map.mp hv
  refine ⟨r.report_standsIn t file f, fun hfit hstmt => ?_⟩
  exact (Check.endsBy_of_mem_findings hfit hstmt hf).start_add_length_le

def longSignature (first : Nat) : Outline where
  package := ⟨0, 9⟩
  decls := [.func ⟨⟨11, 37⟩, "f", none, ⟨17, 28⟩, [], some ⟨29, 36, some first, [.other]⟩⟩]
  blocks := [⟨29, 36, .functionBody⟩]

theorem Rule.violations_stand_longSignature :
    let t := SourceText.ofString "package a\n\nfunc f(\n\ta int,\n) \x7b\n\tg()\n\x7d\n"
    let r : Rule := ⟨.signatureGap, .error⟩
    ∃ v ∈ r.violations t "a.go" (longSignature 32),
      (longSignature 32).FitsIn t.size ∧ (longSignature 32).StatementsIn t.size ∧
        v.StandsIn t r "a.go" ∧ v.location.offset + v.location.length ≤ t.size := by
  intro t r
  have hfit : (longSignature 32).FitsIn t.size := ⟨by decide, by decide, by decide⟩
  have hstmt : (longSignature 32).StatementsIn t.size := by
    unfold Outline.StatementsIn
    decide
  have hne : r.violations t "a.go" (longSignature 32) ≠ [] := by decide
  obtain ⟨v, hv⟩ := List.exists_mem_of_ne_nil _ hne
  obtain ⟨hstands, hwithin⟩ := r.violations_stand t (longSignature 32) "a.go" v hv
  exact ⟨v, hv, hfit, hstmt, hstands, hwithin hfit hstmt⟩

/-- A first statement past the end of the text takes the violation with it. -/
theorem Rule.not_forall_violations_within :
    ¬ ∀ (t : SourceText) (o : Outline) (r : Rule) (file : String), ∀ v ∈ r.violations t file o,
      v.StandsIn t r file ∧
        (o.FitsIn t.size → v.location.offset + v.location.length ≤ t.size) := by
  intro h
  let t := SourceText.ofString "package a\n\nfunc f(\n\ta int,\n) \x7b\n\tg()\n\x7d\n"
  have hfit : (longSignature 1000).FitsIn t.size := ⟨by decide, by decide, by decide⟩
  have hpast : ∃ v ∈ Rule.violations ⟨.signatureGap, .error⟩ t "a.go" (longSignature 1000),
      t.size < v.location.offset + v.location.length := by decide
  obtain ⟨v, hv, hlt⟩ := hpast
  exact Nat.not_le_of_lt hlt ((h t _ _ _ v hv).2 hfit)

end LayoutLint
