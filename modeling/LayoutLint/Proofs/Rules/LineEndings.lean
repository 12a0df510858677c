import LayoutLint.Proofs.Guarded.Rules
import LayoutLint.Proofs.Separator.Moved
import LayoutLint.Proofs.Text.LineEndings
import LayoutLint.Rule
import Mathlib.Data.List.Forall2

/-! # Rules and line endings

A rule reports the same about a text whether its lines end in a line feed alone or in a carriage
return and a line feed: offsets keep their order, their lines and their columns, and a carriage
return is blank wherever a rule looks at one.
-/

namespace LayoutLint

def Finding.point (x : Finding) : Finding := { x with span := ⟨x.span.start, x.span.start⟩ }

/-! ## Closing braces -/

namespace ClosingBrace

theorem indexOf?_append_return {a b : Char} (ha : a ≠ '\r') (hb : b ≠ '\r') (cs : List Char) :
    indexOf? [a, b] (cs ++ ['\r']) = indexOf? [a, b] cs := by
  induction cs with
  | nil => simp [indexOf?, ha]
  | cons c cs ih =>
    have hprefix : [a, b].isPrefixOf (c :: (cs ++ ['\r'])) = [a, b].isPrefixOf (c :: cs) := by
      cases cs with
      | nil => simp [List.isPrefixOf, hb]
      | cons d cs => simp [List.isPrefixOf]
    rw [List.cons_append, indexOf?, indexOf?, hprefix, ih]

/-- Code keeps the carriage return at its end, a comment swallows it. -/
theorem stripComments_append_return (cs : List Char) :
    ∃ rest, (rest = [] ∨ rest = ['\r']) ∧
      stripComments (cs ++ ['\r']) = stripComments cs ++ rest := by
  have hline := indexOf?_append_return (a := '/') (b := '/') (by decide) (by decide) cs
  have hblock := indexOf?_append_return (a := '/') (b := '*') (by decide) (by decide) cs
  have hcode : ∃ rest, (rest = [] ∨ rest = ['\r']) ∧
      (cs ++ ['\r']).take ((indexOf? ['/', '/'] cs).getD (cs ++ ['\r']).length) =
        cs.take ((indexOf? ['/', '/'] cs).getD cs.length) ++ rest := by
    cases hi : indexOf? ['/', '/'] cs with
    | none => exact ⟨['\r'], .inr rfl, by simp [List.take_of_length_le]⟩
    | some i =>
      have hle := indexOf?_add_two_le hi
      exact ⟨[], .inl rfl, by simp [List.take_append_of_le_length (by omega : i ≤ cs.length)]⟩
  rw [stripComments_eq, stripComments_eq cs, hline, hblock]
  cases hb : indexOf? ['/', '*'] cs with
  | none => exact hcode
  | some block =>
    simp only
    split
    case isTrue =>
      have hle := indexOf?_add_two_le hb
      have htake : (cs ++ ['\r']).take block = cs.take block :=
        List.take_append_of_le_length (by omega)
      have hdrop : (cs ++ ['\r']).drop (block + 2) = cs.drop (block + 2) ++ ['\r'] :=
        List.drop_append_of_le_length hle
      rw [htake, hdrop, indexOf?_append_return (by decide) (by decide)]
      cases hstop : indexOf? ['*', '/'] (cs.drop (block + 2)) with
      | none => exact ⟨[], .inl rfl, by simp⟩
      | some stop =>
        have hstop_le := indexOf?_add_two_le hstop
        rw [List.length_drop] at hstop_le
        have hrest : (cs ++ ['\r']).drop (block + 2 + stop + 2) =
            cs.drop (block + 2 + stop + 2) ++ ['\r'] :=
          List.drop_append_of_le_length (by omega)
        obtain ⟨rest, hr, hstrip⟩ := stripComments_append_return (cs.drop (block + 2 + stop + 2))
        refine ⟨rest, hr, ?_⟩
        simp only [hrest, hstrip, List.append_assoc]
    case isFalse => exact hcode
termination_by cs.length
decreasing_by
  rw [List.length_drop]
  omega

theorem continues_append_return (tail : List Char) :
    continues (tail ++ ['\r']) = continues tail := by
  obtain ⟨rest, hr, hstrip⟩ := stripComments_append_return tail
  rw [continues, goesOn, hstrip, continues, goesOn]
  rcases hr with rfl | rfl
  · rw [List.append_nil]
  · rw [Text.trimEnd_append_return]

variable (t : SourceText)

/-- A brace that is the last byte of its line, or past the end, has nothing after it either way. -/
theorem continues_tailAfter_withReturns (offset : Nat) :
    continues (tailAfter t.withReturns (t.moved offset)) = continues (tailAfter t offset) := by
  rw [tailAfter, tailAfter, t.lineAt_withReturns, t.position_withReturns, t.line?_withReturns]
  cases t.line? (t.lineAt offset) with
  | none => rfl
  | some line =>
    simp only [Option.map_some, Option.bind_some]
    split
    case isFalse => rfl
    case isTrue =>
      generalize (t.position offset).column + 1 = n
      cases hd : Text.dropBytes n line with
      | some tail =>
        obtain ⟨pre, rfl, rfl⟩ := Text.exists_append_of_dropBytes hd
        rw [List.append_assoc, Text.dropBytes_byteLength]
        exact continues_append_return tail
      | none =>
        cases hd' : Text.dropBytes n (line ++ ['\r']) with
        | none => rfl
        | some tail =>
          obtain ⟨pre, hpre, rfl⟩ := Text.exists_append_of_dropBytes hd'
          rcases List.append_eq_append_iff.mp hpre with ⟨mid, rfl, hmid⟩ | ⟨mid, rfl, -⟩
          · cases mid with
            | nil =>
              have hall := Text.dropBytes_byteLength line []
              rw [List.append_nil] at hall hd
              rw [hall] at hd
              cases hd
            | cons c mid =>
              obtain ⟨-, rfl⟩ : mid = [] ∧ tail = [] := by simpa using (List.cons.inj hmid).2
              rfl
          · rw [Text.dropBytes_byteLength] at hd
            cases hd

theorem hasBlankBefore_withReturns (b : Block) :
    hasBlankBefore t.withReturns (b.map t.moved) = hasBlankBefore t b := by
  simp only [hasBlankBefore, Block.map, t.lineAt_withReturns, t.isBlankLine_withReturns]

theorem lacksBlankAfter_withReturns (b : Block) :
    lacksBlankAfter t.withReturns (b.map t.moved) = lacksBlankAfter t b := by
  simp only [lacksBlankAfter, Block.map, t.lineAt_withReturns, t.trimmedLine?_withReturns,
    continues_tailAfter_withReturns]

theorem point_blockFindings_withReturns (b : Block) :
    (blockFindings t.withReturns (b.map t.moved)).map Finding.point =
      (blockFindings t b).map fun x => x.point.map t.moved := by
  rw [blockFindings, blockFindings, hasBlankBefore_withReturns, lacksBlankAfter_withReturns]
  cases hasBlankBefore t b <;> cases lacksBlankAfter t b <;> rfl

theorem closesOn_withReturns (blocks : List Block) (line : Nat) :
    closesOn ((blocks.map (Block.map t.moved)).map fun b =>
        (t.withReturns.lineAt b.rbrace, b.rbrace)) line =
      (closesOn (blocks.map fun b => (t.lineAt b.rbrace, b.rbrace)) line).map t.moved := by
  simp only [closesOn, List.map_map, List.filter_map, Function.comp_def, Block.map,
    t.lineAt_withReturns]

theorem foldl_min_moved (first : Nat) (rest : List Nat) :
    (rest.map t.moved).foldl min (t.moved first) = t.moved (rest.foldl min first) := by
  have hmin : ∀ a b, min (t.moved a) (t.moved b) = t.moved (min a b) := by
    intro a b
    have hle := t.moved_le_moved_iff (a := a) (b := b)
    rcases Nat.le_total a b with h | h <;> simp [h, hle, t.moved_le_moved_iff]
  induction rest generalizing first with
  | nil => rfl
  | cons second rest ih => rw [List.map_cons, List.foldl_cons, List.foldl_cons, hmin, ih]

theorem point_multipleFindings_withReturns (blocks : List Block) :
    (multipleFindings t.withReturns (blocks.map (Block.map t.moved))).map Finding.point =
      (multipleFindings t blocks).map fun x => x.point.map t.moved := by
  simp only [multipleFindings, t.lineCount_withReturns, List.map_filterMap, closesOn_withReturns]
  refine List.filterMap_congr fun line _ => ?_
  generalize closesOn (blocks.map fun b => (t.lineAt b.rbrace, b.rbrace)) line = closes
  match closes with
  | [] => rfl
  | [_] => rfl
  | first :: second :: rest =>
    simp only [List.map_cons, Option.map_some, multipleClosesAt, braceSpan, Finding.point,
      Finding.map, Span.map]
    rw [← List.map_cons, foldl_min_moved]

theorem point_findings_withReturns (o : Outline) :
    (findings t.withReturns (o.map t.moved)).map Finding.point =
      (findings t o).map fun x => x.point.map t.moved := by
  simp only [findings, Outline.map, List.map_append, List.map_flatMap, List.flatMap_map,
    point_blockFindings_withReturns, point_multipleFindings_withReturns]

end ClosingBrace

variable (t : SourceText)

/-! ## Placement of `defer` and the gap after a signature -/

namespace DeferPlacement

theorem findings_withReturns (o : Outline) :
    findings t.withReturns (o.map t.moved) = (findings t o).map (Finding.map t.moved) := by
  have hbodies : bodyLines t.withReturns (o.map t.moved) = bodyLines t o := by
    simp only [bodyLines, Outline.map, List.filter_map, List.map_map, Function.comp_def, Block.map,
      t.lineAt_withReturns]
    rfl
  have hmisplaced : isMisplaced t.withReturns = isMisplaced t := by
    funext bodies d
    rw [isMisplaced, isMisplaced, t.isBlankLine_withReturns]
  rw [findings, hbodies, findings]
  simp only [findingsWith, blankBeforeAt, Outline.map, List.filter_map, List.map_map,
    Function.comp_def, Span.map, Finding.map, t.lineAt_withReturns, hmisplaced]

end DeferPlacement

namespace SignatureGap

theorem isMultiline_withReturns (s : Span) :
    isMultiline t.withReturns (s.map t.moved) = isMultiline t s := by
  rw [isMultiline, Span.isEmpty_map (fun _ _ => t.moved_le_moved_iff), isMultiline]
  cases h : s.isEmpty with
  | true => rfl
  | false =>
    have hpos : 0 < s.stop := by
      rw [Span.isEmpty, Span.length, beq_eq_false_iff_ne] at h
      omega
    rw [Span.map, t.lineAt_withReturns, t.lineAt_withReturns_pred hpos]

theorem firstOffset_map (f : Nat → Nat) (b : FuncBody) :
    firstOffset (b.map f) = f (firstOffset b) := by
  cases h : b.firstStmt <;> simp [firstOffset, FuncBody.map, h]

theorem gap_withReturns (comments : List Comment) (b : FuncBody) :
    gap t.withReturns (comments.map (Comment.map t.moved)) (b.map t.moved) = gap t comments b := by
  rw [gap, gap, firstOffset_map]
  simp only [firstLine, List.map_map, Function.comp_def, Comment.map, Span.map, FuncBody.map,
    t.lineAt_withReturns]

theorem functionFinding?_withReturns (comments : List Comment) (d : FuncDecl) :
    functionFinding? t.withReturns (comments.map (Comment.map t.moved)) (d.map t.moved) =
      (functionFinding? t comments d).map (Finding.map t.moved) := by
  rw [functionFinding?, functionFinding?]
  cases hb : d.body with
  | none => simp only [FuncDecl.map, hb, Option.map_none]
  | some body =>
    simp only [FuncDecl.map, hb, Option.map_some, gap_withReturns, isMultiline_withReturns, gapAt,
      firstOffset_map]
    split <;> rfl

theorem findings_withReturns (o : Outline) :
    findings t.withReturns (o.map t.moved) = (findings t o).map (Finding.map t.moved) := by
  rw [findings, Outline.functions_map, findings, List.filterMap_map, List.map_filterMap]
  exact List.filterMap_congr fun d _ => functionFinding?_withReturns t o.comments d

end SignatureGap

/-! ## Separators -/

namespace Separator

theorem isAfterCode_withReturns (offset : Nat) :
    isAfterCode t.withReturns (t.moved offset) = isAfterCode t offset := by
  simp only [isAfterCode, t.lineAt_withReturns, t.lineStart?_withReturns, Option.getD_map,
    t.slice_withReturns, Text.allBlank_withReturns]

def Group.map (f : Nat → Nat) (g : Group) : Group := { g with span := g.span.map f }

theorem single_withReturns (c : Comment) :
    Group.single t.withReturns (c.map t.moved) = (Group.single t c).map t.moved := by
  simp only [Group.single, Group.map, Comment.map, Span.map, isAfterCode_withReturns]

theorem accepts_withReturns (g : Group) (c : Comment) :
    (g.map t.moved).accepts t.withReturns (c.map t.moved) = g.accepts t c := by
  simp only [Group.accepts, Group.map, Comment.map, Span.map, t.slice_withReturns,
    Text.allBlank_withReturns, Text.count_withReturns]
  rfl

theorem groupsFrom_withReturns (g : Group) (cs : List Comment) :
    groupsFrom t.withReturns (g.map t.moved) (cs.map (Comment.map t.moved)) =
      (groupsFrom t g cs).map (Group.map t.moved) := by
  induction cs generalizing g with
  | nil => rfl
  | cons c cs ih =>
    have hinsert : (g.map t.moved).insert (c.map t.moved) = (g.insert c).map t.moved := rfl
    rw [List.map_cons, groupsFrom, groupsFrom, accepts_withReturns, hinsert, ih,
      single_withReturns, ih]
    split <;> rfl

theorem separators_withReturns (options : Options) (cs : List Comment) :
    separators t.withReturns options (cs.map (Comment.map t.moved)) =
      (separators t options cs).map (Span.map t.moved) := by
  have hgroups : groups t.withReturns (cs.map (Comment.map t.moved)) =
      (groups t cs).map (Group.map t.moved) := by
    cases cs with
    | nil => rfl
    | cons c cs => rw [List.map_cons, groups, single_withReturns, groupsFrom_withReturns, groups]
  rw [separators, hgroups, separators, ← Span.mergeSort_map (fun _ _ => t.moved_le_moved_iff),
    List.filter_map, List.map_map, List.map_map]
  rfl

theorem layout_withReturns (options : Options) (o : Outline) :
    Layout.of t.withReturns options (o.map t.moved) = (Layout.of t options o).map t.moved := by
  have hle : ∀ a b, t.moved a ≤ t.moved b ↔ a ≤ b := fun _ _ => t.moved_le_moved_iff
  have himports := Span.mergeSort_map hle o.imports
  have hdecls := mergeSort_map_span hle (Decl.span_map t.moved) o.decls
  rw [Layout.of, Layout.of, Layout.map]
  congr 1
  exact separators_withReturns t options o.comments

theorem lastLine_withReturns (s : Span) :
    lastLine t.withReturns (s.map t.moved) = lastLine t s := by
  rw [lastLine, lastByte, lastLine, lastByte]
  simp only [Span.map]
  rcases Nat.lt_or_ge s.start s.stop with hlt | hge
  · have hmoved := (map_lt_iff (fun _ _ => t.moved_le_moved_iff) s.start s.stop).mpr hlt
    rw [Nat.max_eq_left hmoved, Nat.max_eq_left hlt, t.lineAt_withReturns_pred (by omega)]
  · have hmoved := t.moved_le_moved_iff.mpr hge
    rw [Nat.max_eq_right (by omega), Nat.max_eq_right (by omega), Nat.add_sub_cancel,
      Nat.add_sub_cancel, t.lineAt_withReturns]

theorem firstLine_withReturns (s : Span) :
    firstLine t.withReturns (s.map t.moved) = firstLine t s := t.lineAt_withReturns s.start

theorem isMultiline_withReturns (s : Span) :
    isMultiline t.withReturns (s.map t.moved) = isMultiline t s := by
  rw [isMultiline, firstLine_withReturns, lastLine_withReturns, isMultiline]

theorem shareLine_withReturns (s d : Span) :
    shareLine t.withReturns (s.map t.moved) (d.map t.moved) = shareLine t s d := by
  simp only [shareLine, firstLine_withReturns, lastLine_withReturns]

theorem isSpaced_withReturns (s : Span) :
    isSpaced t.withReturns (s.map t.moved) = isSpaced t s := by
  simp only [isSpaced, spacedBy, firstLine_withReturns, lastLine_withReturns,
    t.blankLinesBefore_withReturns, t.blankLinesAfter_withReturns, t.lastLine_withReturns]

theorem filter_moved (separators : List Span) {p q : Span → Bool} (message : String)
    (h : ∀ s, q (s.map t.moved) = p s) :
    ((separators.map (Span.map t.moved)).filter q).map (⟨·, message, none⟩) =
      ((separators.filter p).map (⟨·, message, none⟩)).map (Finding.map t.moved) := by
  have hfilter : separators.filter (q ∘ Span.map t.moved) = separators.filter p :=
    List.filter_congr fun s _ => h s
  rw [List.filter_map, hfilter, List.map_map, List.map_map]
  rfl

theorem packageFindings_withReturns (l : Layout) :
    packageFindings t.withReturns (l.map t.moved) =
      (packageFindings t l).map (Finding.map t.moved) := by
  have hpackage : t.withReturns.lineAt (l.package.map t.moved).start = t.lineAt l.package.start :=
    t.lineAt_withReturns l.package.start
  simp only [packageFindings, Layout.map, List.head?_map, Option.any_map,
    firstLine_withReturns, List.isEmpty_map, hpackage]
  split <;> rfl

theorem layoutFindings_withReturns (testPrefixes : List String) (l : Layout) :
    layoutFindings t.withReturns testPrefixes (l.map t.moved) =
      (layoutFindings t testPrefixes l).map (Finding.map t.moved) := by
  have hle : ∀ a b, t.moved a ≤ t.moved b ↔ a ≤ b := fun _ _ => t.moved_le_moved_iff
  have hmultiline := filter_moved t l.separators multiline
    (isMultiline_withReturns t)
  have hspaced := filter_moved t l.separators (p := (!isSpaced t ·))
    (q := (!isSpaced t.withReturns ·)) spacing fun s => congrArg (!·) (isSpaced_withReturns t s)
  have hover := filter_moved t l.separators
    (p := fun s => l.decls.any fun d => shareLine t s d.span)
    (q := fun s => (l.decls.map (Decl.map t.moved)).any fun d =>
      shareLine t.withReturns s d.span) overCode fun s => by
    simp only [List.any_map, Function.comp_def, Decl.span_map, shareLine_withReturns]
  simp only [layoutFindings, trailingFindings_map hle, leadingFindings_map hle,
    emptySectionFindings_map hle, packageFindings_withReturns, List.map_append]
  simp only [Layout.map, hmultiline, hover, hspaced, partition_map hle, List.flatMap_map,
    List.map_flatMap, List.isEmpty_map, bucketFindings_map]
  congr 2
  funext bucket
  split <;> rfl

theorem findings_withReturns (options : Options) (o : Outline) :
    findings t.withReturns options (o.map t.moved) =
      (findings t options o).map (Finding.map t.moved) := by
  rw [findings, layout_withReturns, findings, layoutFindings_withReturns]

end Separator

/-! ## All rules -/

/-- The same but for the offset and the length of the place. -/
structure Violation.Agrees (v w : Violation) : Prop where
  rule : v.rule = w.rule
  line : v.location.line = w.location.line
  column : v.location.column = w.location.column
  message : v.message = w.message
  file : v.location.file = w.location.file
  code : v.code = w.code
  category : v.category = w.category
  severity : v.severity = w.severity
  suggestion : v.suggestion = w.suggestion

theorem Check.point_findings_withReturns (c : Check) (o : Outline) :
    (c.findings t.withReturns (o.map t.moved)).map Finding.point =
      (c.findings t o).map fun x => x.point.map t.moved := by
  have hpoint : ∀ xs : List Finding, (xs.map (Finding.map t.moved)).map Finding.point =
      xs.map fun x => x.point.map t.moved := fun _ => List.map_map
  cases c with
  | closingBrace => exact ClosingBrace.point_findings_withReturns t o
  | deferPlacement =>
    rw [findings, DeferPlacement.findings_withReturns, hpoint, findings]
  | signatureGap =>
    rw [findings, SignatureGap.findings_withReturns, hpoint, findings]
  | separatorGroups options =>
    rw [findings, Separator.findings_withReturns, hpoint, findings]

theorem Rule.report_agrees (r : Rule) (file : String) {x y : Finding}
    (h : y.point = x.point.map t.moved) :
    (r.report t file x).Agrees (r.report t.withReturns file y) := by
  have hstart : y.span.start = t.moved x.span.start := congrArg (·.span.start) h
  have hposition := t.position_withReturns x.span.start
  refine ⟨rfl, ?_, ?_, (congrArg (·.message) h).symm, rfl, rfl, rfl, rfl,
    (congrArg (·.suggestion) h).symm⟩
  · simp only [report, reportAt, SourceText.location, hstart, hposition]
  · simp only [report, reportAt, SourceText.location, hstart, hposition]

theorem Rule.agrees_withReturns (r : Rule) (file : String) (o : Outline) :
    List.Forall₂ Violation.Agrees (r.violations t file o)
      (r.violations t.withReturns file (o.map t.moved)) := by
  have hpoints := r.check.point_findings_withReturns t o
  have hfindings : List.Forall₂ (fun y x => y.point = x.point.map t.moved)
      (r.check.findings t.withReturns (o.map t.moved)) (r.check.findings t o) := by
    rw [← List.forall₂_eq_eq_eq, List.forall₂_map_left_iff, List.forall₂_map_right_iff] at hpoints
    exact hpoints
  rw [violations, violations, List.forall₂_map_left_iff, List.forall₂_map_right_iff]
  exact hfindings.flip.imp fun _ _ h => r.report_agrees t file h

namespace Guarded

variable {t} {o : Outline}

theorem hasRoom_of_moved {c : Check} (h : (o.map t.moved).HasRoom c) : o.HasRoom c := by
  have hroom : ∀ {n}, t.moved n + 1 < Word.count → n + 1 < Word.count := by
    intro n hn
    rw [t.moved_eq] at hn
    omega
  cases c with
  | closingBrace => exact fun b hb => hroom (h _ (List.mem_map_of_mem hb))
  | separatorGroups options =>
    refine ⟨fun c hc => hroom (h.1 _ (List.mem_map_of_mem hc)), fun d hd => hroom ?_⟩
    have hmoved := h.2 _ (List.mem_map_of_mem hd)
    rwa [Decl.span_map] at hmoved
  | deferPlacement => trivial
  | signatureGap => trivial

theorem inMemory_of_withReturns {c : Check} (h : InMemory t.withReturns c (o.map t.moved)) :
    InMemory t c o := by
  have htext := h.text
  have hcomments := h.comments
  have hblocks := h.blocks
  rw [t.size_withReturns] at htext
  rw [Outline.map, List.length_map] at hcomments hblocks
  exact ⟨by omega, hcomments, hblocks, h.token⟩

/-- Carriage returns at the ends of the lines move what a rule reports and change nothing else, as
long as the offsets it steps past have a word after them where they are moved to. -/
theorem violations_withReturns (t : SourceText) (r : Rule) (file : String) (o : Outline)
    (hm : InMemory t.withReturns r.check (o.map t.moved))
    (ho : (o.map t.moved).HasRoom r.check) :
    ∃ vs vs', violations t r file o = .ok vs ∧
      violations t.withReturns r file (o.map t.moved) = .ok vs' ∧
      List.Forall₂ Violation.Agrees vs vs' :=
  ⟨_, _, violations_ok (inMemory_of_withReturns hm) (hasRoom_of_moved ho) file,
    violations_ok hm ho file, r.agrees_withReturns t file o⟩

def crowdedText : SourceText := { chars := "package a\n//\nvar b int\n".toList }

def crowdedOutline : Outline where
  package := ⟨0, 9⟩
  comments := [⟨⟨10, 12⟩, "//"⟩]
  decls := [.gen ⟨13, 22⟩ .vars []]

theorem violations_withReturns_crowded :
    (crowdedOutline.map crowdedText.moved).HasRoom (.separatorGroups { width := 2 }) ∧
      ∃ vs vs', violations crowdedText ⟨.separatorGroups { width := 2 }, .error⟩ "a.go"
          crowdedOutline = .ok vs ∧ vs.length = 2 ∧
        violations crowdedText.withReturns ⟨.separatorGroups { width := 2 }, .error⟩ "a.go"
          (crowdedOutline.map crowdedText.moved) = .ok vs' ∧
        List.Forall₂ Violation.Agrees vs vs' := by
  have hroom : (crowdedOutline.map crowdedText.moved).HasRoom (.separatorGroups { width := 2 }) :=
    ⟨by decide +kernel, by decide +kernel⟩
  obtain ⟨vs, vs', hvs, hvs', hagrees⟩ := violations_withReturns crowdedText
    ⟨.separatorGroups { width := 2 }, .error⟩ "a.go" crowdedOutline
    ⟨by decide +kernel, by decide +kernel, by decide +kernel, by rintro options ⟨⟩; decide⟩ hroom
  have hlength : (violations crowdedText ⟨.separatorGroups { width := 2 }, .error⟩ "a.go"
      crowdedOutline).map List.length = .ok 2 := by decide +kernel
  rw [hvs] at hlength
  exact ⟨hroom, vs, vs', hvs, Except.ok.inj hlength, hvs', hagrees⟩

/-- A comment that starts at the last word but one, in a text with one line feed. -/
def lastWordOutline : Outline where
  comments := [⟨⟨Word.count - 2, 1⟩, "/"⟩]

/-- With a carriage return the comment starts at the last word, and the run stops there. -/
theorem not_forall_violations_withReturns :
    ¬ ∀ (t : SourceText) (r : Rule) (file : String) (o : Outline), '\r' ∉ t.chars →
      (∀ x ∈ (o.map t.moved).offsets, x < Word.count) →
      InMemory t.withReturns r.check (o.map t.moved) →
      ∃ vs vs', violations t r file o = .ok vs ∧
        violations t.withReturns r file (o.map t.moved) = .ok vs' ∧
        List.Forall₂ Violation.Agrees vs vs' := by
  intro h
  obtain ⟨vs, vs', -, hvs', -⟩ := h { chars := ['\n'] } ⟨.separatorGroups { width := 1 }, .error⟩
    "a.go" lastWordOutline (by decide) (by decide +kernel)
    ⟨by decide +kernel, by decide +kernel, by decide +kernel, by rintro options ⟨⟩; decide⟩
  have hfault : violations (SourceText.withReturns { chars := ['\n'] })
      ⟨.separatorGroups { width := 1 }, .error⟩ "a.go"
      (lastWordOutline.map (SourceText.moved { chars := ['\n'] })) = .error .overflow := by
    decide +kernel
  rw [hfault] at hvs'
  cases hvs'

end Guarded

end LayoutLint
