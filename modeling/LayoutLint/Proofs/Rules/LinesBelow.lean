import LayoutLint.Proofs.Outline.Openings
import LayoutLint.Proofs.Rules.FirstLines

/-! # The two lines below a signature

Where nothing is reported about a body, the second line below its brace shows the first thing in it.
The line above that one is blank, unless a comment that starts beside the brace goes on there: such
a comment starts on no line of its own, and the gap is measured past it.
-/

namespace LayoutLint.SignatureGap

open Outline

variable {t : SourceText} {comments : List Comment} {f : FuncDecl} {body : FuncBody}

/-- The comment starts on the line of the opening brace, after it. -/
def StartsBeside (t : SourceText) (body : FuncBody) (c : Comment) : Prop :=
  body.lbrace < c.span.start ∧ t.lineAt c.span.start = t.lineAt body.lbrace

/-- If the text has a second line, it is blank. -/
def LeavesBlank (cs : List Char) : Prop :=
  ∀ line, (Text.splitLines cs)[1]? = some line → Text.allBlank line = true

theorem isLeast_of_functionFinding?_eq_none (hcomments : Ordered comments)
    (hbody : f.body = some body) (hm : isMultiline t f.params = true)
    (hnone : functionFinding? t comments f = none) :
    IsLeast (startLines t comments body) (t.lineAt body.lbrace + 2) := by
  have hleast := isLeast_firstLine (t := t) hcomments body
  rw [functionFinding?_eq hbody hm rfl] at hnone
  split at hnone
  case isTrue htwo => rwa [htwo] at hleast
  case isFalse => split at hnone <;> cases hnone

section

variable (hleast : IsLeast (startLines t comments body) (t.lineAt body.lbrace + 2))
  (h : ShowsComments t.chars comments body)
include hleast h

theorem isBlankLine_of_isLeast : t.isBlankLine (t.lineAt body.lbrace + 2) = false := by
  rcases hleast.1 with hline | ⟨-, -, c, hc, hline⟩
  · rw [hline]
    exact SourceText.isBlankLine_eq_false_of_showsAt h.first
  · rw [← hline]
    exact SourceText.isBlankLine_eq_false_of_showsAt (h.starts c hc)

/-- What shows on the first line below the brace belongs to a comment that starts beside it. -/
theorem exists_startsBeside {i : Nat} (hi : Text.ShowsAt t.chars i)
    (hline : t.lineAt i = t.lineAt body.lbrace + 1) :
    ∃ c ∈ comments, StartsBeside t body c ∧ c.span.start ≤ i ∧ i < c.span.stop := by
  have htwo : t.lineAt body.lbrace + 2 ≤ t.lineAt (firstOffset body) := hleast.2 (.inl rfl)
  have hbrace : body.lbrace < i := by
    by_contra hle
    have hmono := t.lineAt_mono (Nat.le_of_not_lt hle)
    omega
  have hfirst : i < firstOffset body := by
    by_contra hle
    have hmono := t.lineAt_mono (Nat.le_of_not_lt hle)
    omega
  obtain ⟨c, hc, hlt, hstart, hstop⟩ := h.between i hbrace hfirst hi
  refine ⟨c, hc, ⟨hlt, ?_⟩, hstart, hstop⟩
  have habove := t.lineAt_mono (Nat.le_of_lt hlt)
  have hbelow := t.lineAt_mono hstart
  by_contra hne
  have hnext := hleast.2 (.inr ⟨by omega, by omega, c, hc, rfl⟩)
  omega

theorem isBlankLine_succ_iff
    (hstand : ∀ c ∈ comments, Text.slice? t.chars c.span.start c.span.stop = some c.text.toList) :
    t.isBlankLine (t.lineAt body.lbrace + 1) = true ↔
      ∀ c ∈ comments, StartsBeside t body c → LeavesBlank c.text.toList := by
  have htwo : t.lineAt body.lbrace + 2 ≤ t.lineAt (firstOffset body) := hleast.2 (.inl rfl)
  have hcount := t.lineAt_lt_lineCount (firstOffset body)
  rw [SourceText.isBlankLine_iff_not_showsAt (by omega)]
  constructor
  · rintro hnone c hc ⟨-, hline⟩ line hsecond
    obtain ⟨pre, post, hchars, hpre⟩ := Text.exists_append_of_slice? (hstand c hc)
    refine Text.allBlank_iff.mpr fun d hd => ?_
    obtain ⟨ahead, behind, htext, hone⟩ := Text.exists_append_of_mem_line hsecond hd
    have hsplit : t.chars = (pre ++ ahead) ++ d :: (behind ++ post) := by
      rw [hchars, htext]
      simp only [List.append_assoc, List.cons_append]
    by_contra hvisible
    refine hnone _ ⟨_, d, _, hsplit, rfl, Bool.eq_false_iff.mpr hvisible⟩ ?_
    rw [SourceText.lineAt_byteLength hsplit, List.count_append, hone, ← hline, ← hpre,
      SourceText.lineAt_byteLength hchars]
  · rintro hblank i hi hline
    obtain ⟨c, hc, hbeside, hstart, hstop⟩ := exists_startsBeside hleast h hi hline
    obtain ⟨above, d, below, habove, rfl, hd⟩ := hi
    obtain ⟨pre, ahead, behind, rfl, hpre, htext⟩ :=
      Text.exists_append_of_mem_slice? (hstand c hc) habove hstart hstop
    obtain ⟨line, hsecond, hmem⟩ :=
      Text.exists_mem_line_of_append (Text.ne_lineFeed_of_visible hd) ahead behind
    have hone : ahead.count '\n' = 1 := by
      have hsplit : t.chars = pre ++ (ahead ++ d :: below) := by rw [habove, List.append_assoc]
      rw [← hbeside.2, ← hpre, SourceText.lineAt_byteLength hsplit,
        SourceText.lineAt_byteLength habove, List.count_append] at hline
      omega
    rw [← htext, hone] at hsecond
    have hall := Text.allBlank_iff.mp (hblank c hc hbeside line hsecond) d hmem
    rw [hd] at hall
    cases hall

end

/-- In a well-formed outline of a body that opens with comments only, where nothing is reported
below a signature on several lines, the second line below the brace is there and is not blank. The
first one is blank exactly if each comment that starts beside the brace leaves it blank. -/
theorem isBlankLine_below_brace (t : SourceText) (o : Outline) (f : FuncDecl) (body : FuncBody)
    (ho : o.WellFormed t.chars) (hbody : f.body = some body)
    (hshows : ShowsComments t.chars o.comments body) (hm : isMultiline t f.params = true)
    (hnone : functionFinding? t o.comments f = none) :
    t.lineAt body.lbrace + 2 < t.lineCount ∧
      t.isBlankLine (t.lineAt body.lbrace + 2) = false ∧
      (t.isBlankLine (t.lineAt body.lbrace + 1) = true ↔
        ∀ c ∈ o.comments, StartsBeside t body c → LeavesBlank c.text.toList) := by
  have hordered : Ordered o.comments :=
    (List.pairwise_map.mp ho.comments_ordered).imp fun hbefore => Nat.le_of_lt hbefore.1
  have hleast := isLeast_of_functionFinding?_eq_none hordered hbody hm hnone
  refine ⟨?_, isBlankLine_of_isLeast hleast hshows,
    isBlankLine_succ_iff hleast hshows ho.comments_stand⟩
  have htwo : t.lineAt body.lbrace + 2 ≤ t.lineAt (firstOffset body) := hleast.2 (.inl rfl)
  exact Nat.lt_of_le_of_lt htwo (t.lineAt_lt_lineCount _)

def hollowText : SourceText :=
  { chars := "package a\n\nfunc f(\n\ta int,\n) \x7b /* b\n\n*/ g()\n\x7d\n".toList }

theorem isBlankLine_below_brace_hollowText :
    let body : FuncBody := ⟨29, 44, some 40, [.other]⟩
    let f : FuncDecl := ⟨⟨11, 45⟩, "f", none, ⟨17, 28⟩, [], some body⟩
    let o := ofText hollowText.chars
    o.WellFormed hollowText.chars ∧ f ∈ o.functions ∧
      ShowsComments hollowText.chars o.comments body ∧ isMultiline hollowText f.params = true ∧
      functionFinding? hollowText o.comments f = none ∧
      StartsBeside hollowText body ⟨⟨31, 39⟩, "/* b\n\n*/"⟩ ∧
      hollowText.isBlankLine 5 = true ∧ hollowText.isBlankLine 6 = false := by
  intro body f o
  obtain ⟨hread, hf, hcomments⟩ : o.hasSyntaxErrors = false ∧ f ∈ o.functions ∧
      o.comments = [⟨⟨31, 39⟩, "/* b\n\n*/"⟩] := by decide +kernel
  obtain ⟨ho, hopens⟩ := showsComments_ofText hread
  have hshows := hopens f hf body rfl
  have hm : isMultiline hollowText f.params = true := by decide +kernel
  have hnone : functionFinding? hollowText o.comments f = none := by
    rw [hcomments]
    decide +kernel
  have hbrace : hollowText.lineAt body.lbrace = 4 := by decide +kernel
  have hbeside : hollowText.lineAt 31 = 4 := by decide +kernel
  have hsecond : (Text.splitLines "/* b\n\n*/".toList)[1]? = some [] := by decide
  obtain ⟨-, hsix, hfive⟩ := isBlankLine_below_brace hollowText o f body ho rfl hshows hm hnone
  rw [hbrace, hcomments] at hfive
  rw [hbrace] at hsix
  refine ⟨ho, hf, hshows, hm, hnone, ⟨by decide, by rw [hbrace, hbeside]⟩, hfive.mpr ?_, hsix⟩
  intro c hc _ line hline
  rw [List.mem_singleton.mp hc, hsecond] at hline
  cases hline
  rfl

def filledText : SourceText :=
  { chars := "package a\n\nfunc f(\n\ta int,\n) \x7b /* b\n\tc */\n\tg()\n\x7d\n".toList }

/-- A signature about which nothing is reported may have no blank line below it. -/
theorem not_forall_isBlankLine_below_brace :
    ¬ ∀ (t : SourceText) (o : Outline) (f : FuncDecl) (body : FuncBody),
      o.WellFormed t.chars → f ∈ o.functions → f.body = some body →
      ShowsComments t.chars o.comments body → isMultiline t f.params = true →
      functionFinding? t o.comments f = none →
      t.isBlankLine (t.lineAt body.lbrace + 1) = true ∧
        t.isBlankLine (t.lineAt body.lbrace + 2) = false := by
  intro h
  let body : FuncBody := ⟨29, 47, some 43, [.other]⟩
  let f : FuncDecl := ⟨⟨11, 48⟩, "f", none, ⟨17, 28⟩, [], some body⟩
  obtain ⟨hread, hf, hnone⟩ : (ofText filledText.chars).hasSyntaxErrors = false ∧
      f ∈ (ofText filledText.chars).functions ∧
      functionFinding? filledText (ofText filledText.chars).comments f = none := by decide +kernel
  obtain ⟨ho, hopens⟩ := showsComments_ofText hread
  have hblank := (h filledText _ f body ho hf rfl (hopens f hf body rfl) (by decide +kernel)
    hnone).1
  exact absurd hblank (by decide +kernel)

end LayoutLint.SignatureGap
