import LayoutLint.Proofs.Rules.SignatureBlank
import LayoutLint.Proofs.Text.LineEndings
import LayoutLint.Proofs.Unrepeated
import Mathlib.Order.Bounds.Basic

/-! # The first line of a body

The gap below a signature is measured to the first comment in the list that starts between the brace
and the first statement. Where the comments are listed in the order of the text, that is the least
of the lines on which something in the body starts, and no other comment counts.
-/

namespace LayoutLint.SignatureGap

variable {t : SourceText} {comments : List Comment} {f : FuncDecl} {body : FuncBody}

/-- The line of the first statement, or of the closing brace if there is none, and each line
strictly between it and that of the opening brace on which a comment starts. -/
def startLines (t : SourceText) (comments : List Comment) (body : FuncBody) : Set Nat :=
  {l | l = t.lineAt (firstOffset body) ∨
    t.lineAt body.lbrace < l ∧ l < t.lineAt (firstOffset body) ∧
      ∃ c ∈ comments, t.lineAt c.span.start = l}

def Ordered (comments : List Comment) : Prop :=
  comments.Pairwise fun a b => a.span.start ≤ b.span.start

instance : Decidable (Ordered comments) := inferInstanceAs (Decidable (List.Pairwise _ _))

/-! ## The least line -/

theorem le_of_find?_eq_some {ns : List Nat} {p : Nat → Bool} {m n : Nat}
    (hns : ns.Pairwise (· ≤ ·)) (hm : ns.find? p = some m) (hn : n ∈ ns) (hp : p n = true) :
    m ≤ n := by
  obtain ⟨-, before, after, rfl, hbefore⟩ := List.find?_eq_some_iff_append.mp hm
  rcases List.mem_append.mp hn with hn | hn
  · have hnot := hbefore n hn
    rw [hp] at hnot
    cases hnot
  rcases List.mem_cons.mp hn with rfl | hn
  · exact Nat.le_refl n
  · exact (List.pairwise_cons.mp (List.pairwise_append.mp hns).2.1).1 n hn

theorem isLeast_firstLine (hcomments : Ordered comments) (body : FuncBody) :
    IsLeast (startLines t comments body)
      (firstLine t comments (t.lineAt body.lbrace) (t.lineAt (firstOffset body))) := by
  have hlines : (comments.map fun c => t.lineAt c.span.start).Pairwise (· ≤ ·) :=
    List.pairwise_map.mpr (hcomments.imp fun hle => t.lineAt_mono hle)
  unfold firstLine
  cases hfind : (comments.map fun c => t.lineAt c.span.start).find? fun l =>
      t.lineAt body.lbrace < l && l < t.lineAt (firstOffset body) with
  | none =>
    refine ⟨.inl rfl, ?_⟩
    rintro l (rfl | ⟨habove, hbelow, c, hc, rfl⟩)
    · exact Nat.le_refl _
    · have hnone := List.find?_eq_none.mp hfind _ (List.mem_map_of_mem hc)
      simp [habove, hbelow] at hnone
  | some first =>
    have hwindow := List.find?_some hfind
    rw [Bool.and_eq_true, decide_eq_true_eq, decide_eq_true_eq] at hwindow
    obtain ⟨c, hc, hline⟩ := List.mem_map.mp (List.mem_of_find?_eq_some hfind)
    refine ⟨.inr ⟨hwindow.1, hwindow.2, c, hc, hline⟩, ?_⟩
    rintro l (rfl | ⟨habove, hbelow, c, hc, rfl⟩)
    · exact Nat.le_of_lt hwindow.2
    · refine le_of_find?_eq_some hlines hfind (List.mem_map_of_mem hc) ?_
      simp [habove, hbelow]

/-! ## What is reported -/

theorem gapRequired_ne_gapTooLong (n : Nat) : gapRequired ≠ gapTooLong n := by
  intro h
  have hopens : Opens "Too many line breaks after the multiline function signature: "
      gapRequired := by
    rw [h]
    exact opens_append _ (toString n)
  exact absurd hopens (by decide +kernel)

/-- What is reported about a body depends on its first line alone. -/
theorem functionFinding?_eq (hbody : f.body = some body) (hm : isMultiline t f.params = true)
    {first : Nat}
    (hfirst : firstLine t comments (t.lineAt body.lbrace) (t.lineAt (firstOffset body)) = first) :
    functionFinding? t comments f =
      if first = t.lineAt body.lbrace + 2 then none
      else if first < t.lineAt body.lbrace + 2 then some (gapAt body gapRequired)
      else some (gapAt body (gapTooLong (first - t.lineAt body.lbrace - 1))) := by
  have hgap : gap t comments body = first - t.lineAt body.lbrace := by rw [gap, hfirst]
  have htwo : first - t.lineAt body.lbrace = 2 ↔ first = t.lineAt body.lbrace + 2 := by omega
  have hless : first - t.lineAt body.lbrace < 2 ↔ first < t.lineAt body.lbrace + 2 := by omega
  rw [functionFinding?, hbody]
  simp only [hm, hgap, htwo, hless, Bool.not_true, Bool.false_or, decide_eq_true_eq]
  by_cases hrequired : first < t.lineAt body.lbrace + 2
  · simp only [hrequired, if_true]
  · simp only [hrequired, if_false]

/-- Below a signature on several lines nothing is reported exactly if the first thing in the body
starts two lines below the opening brace. A blank line is required exactly if it starts above that
line, and else the blank lines are counted. A comment that starts on no line between the brace and
the first statement does not count. -/
theorem functionFinding?_of_first_line (t : SourceText) (comments : List Comment) (f : FuncDecl)
    (body : FuncBody) (hcomments : Ordered comments) (hbody : f.body = some body)
    (hm : isMultiline t f.params = true) :
    ∃ first, IsLeast (startLines t comments body) first ∧
      (functionFinding? t comments f = none ↔ first = t.lineAt body.lbrace + 2) ∧
      (functionFinding? t comments f = some (gapAt body gapRequired) ↔
        first < t.lineAt body.lbrace + 2) ∧
      (t.lineAt body.lbrace + 2 < first → functionFinding? t comments f =
        some (gapAt body (gapTooLong (first - t.lineAt body.lbrace - 1)))) ∧
      ∀ others, Ordered others → startLines t others body = startLines t comments body →
        functionFinding? t others f = functionFinding? t comments f := by
  have hleast := isLeast_firstLine (t := t) hcomments body
  have hfinding (comments : List Comment) : functionFinding? t comments f = _ :=
    functionFinding?_eq hbody hm rfl
  refine ⟨_, hleast, ?_, ?_, fun hlong => ?_, fun others hothers hsame => ?_⟩
  · rw [hfinding]
    split
    case isTrue htwo => exact iff_of_true rfl htwo
    case isFalse hnot =>
      refine iff_of_false ?_ hnot
      split <;> exact Option.some_ne_none _
  · rw [hfinding]
    split
    case isTrue htwo => exact iff_of_false nofun (by omega)
    case isFalse =>
      split
      case isTrue hshort => exact iff_of_true rfl hshort
      case isFalse hshort =>
        refine iff_of_false (fun h => ?_) hshort
        exact gapRequired_ne_gapTooLong _ (congrArg Finding.message (Option.some.inj h)).symm
  · rw [hfinding, if_neg (by omega), if_neg (by omega)]
  · have hothers := isLeast_firstLine (t := t) hothers body
    rw [hsame] at hothers
    rw [hfinding, hfinding, hothers.unique hleast]

def commentedText : SourceText :=
  { chars := "func f(\n\ta int,\n) \x7b // b\n\n\n\t// c\n\tg()\n\x7d\n".toList }

theorem functionFinding?_of_first_line_commented :
    let comments : List Comment := [⟨⟨20, 24⟩, "// b"⟩, ⟨⟨28, 32⟩, "// c"⟩]
    let body : FuncBody := ⟨18, 38, some 34, [.other]⟩
    let f : FuncDecl := ⟨⟨0, 39⟩, "f", none, ⟨6, 17⟩, [], some body⟩
    Ordered comments ∧ isMultiline commentedText f.params = true ∧
      commentedText.lineAt body.lbrace = 2 ∧ IsLeast (startLines commentedText comments body) 5 ∧
      functionFinding? commentedText comments f = some (gapAt body (gapTooLong 2)) := by
  intro comments body f
  have hcomments : Ordered comments := by decide
  have hm : isMultiline commentedText f.params = true := by decide +kernel
  have hbrace : commentedText.lineAt body.lbrace = 2 := by decide +kernel
  have hlast : commentedText.lineAt (firstOffset body) = 6 := by decide +kernel
  have hbeside : commentedText.lineAt 20 = 2 := by decide +kernel
  have habove : commentedText.lineAt 28 = 5 := by decide +kernel
  have hfive : IsLeast (startLines commentedText comments body) 5 := by
    refine ⟨.inr ⟨by omega, by omega, _, List.mem_cons_of_mem _ (.head _), habove⟩, ?_⟩
    rintro l (rfl | ⟨hlt, -, c, hc, rfl⟩)
    · omega
    · simp only [comments, List.mem_cons, List.not_mem_nil, or_false] at hc
      rcases hc with rfl | rfl
      · have hbelow : commentedText.lineAt body.lbrace < commentedText.lineAt 20 := hlt
        omega
      · exact Nat.le_of_eq habove.symm
  obtain ⟨first, hfirst, -, -, hlong, -⟩ :=
    functionFinding?_of_first_line commentedText comments f body hcomments rfl hm
  obtain rfl := hfirst.unique hfive
  rw [hbrace] at hlong
  exact ⟨hcomments, hm, hbrace, hfive, hlong (by decide)⟩

end LayoutLint.SignatureGap
