import LayoutLint.Proofs.Rules.Comments

/-! # A scanner for comments

Comments are taken out of a text by searching it for their marks, again and again. A scanner that
reads the text once, from left to right, and remembers only whether it is inside a block comment
leaves the same characters. What it leaves holds no mark of a comment, not even one put together
from both sides of a comment that was taken out, so nothing more is taken out the second time.
-/

namespace LayoutLint.ClosingBrace

inductive Mode where
  | code
  | block
  deriving DecidableEq, Repr

/-- Code is copied. A block comment starts at `/*` and goes up to the first `*/` after these two
characters, and nothing is read after `//`. -/
def scan : Mode → List Char → List Char
  | _, [] => []
  | .code, '/' :: '/' :: _ => []
  | .code, '/' :: '*' :: cs => scan .block cs
  | .code, c :: cs => c :: scan .code cs
  | .block, '*' :: '/' :: cs => scan .code cs
  | .block, _ :: cs => scan .block cs

/-! ## Single steps -/

theorem AtMark.cases {cs : List Char} (h : AtMark cs) :
    ∃ ds, cs = '/' :: '/' :: ds ∨ cs = '/' :: '*' :: ds := by
  rcases h with ⟨ds, rfl⟩ | ⟨ds, rfl⟩
  · exact ⟨ds, .inl rfl⟩
  · exact ⟨ds, .inr rfl⟩

theorem scan_code_cons {c : Char} {cs : List Char} (h : ¬ AtMark (c :: cs)) :
    scan .code (c :: cs) = c :: scan .code cs := by
  rw [scan]
  · rintro ds rfl rfl
    exact h (.inl ⟨ds, rfl⟩)
  · rintro ds rfl rfl
    exact h (.inr ⟨ds, rfl⟩)

theorem scan_block_cons {c : Char} {cs : List Char} (h : ¬ ['*', '/'] <+: c :: cs) :
    scan .block (c :: cs) = scan .block cs := by
  rw [scan]
  rintro ds rfl rfl
  exact h ⟨ds, rfl⟩

/-- Inside a block comment the scanner goes to the place where the end of it is found first. -/
theorem scan_block (cs : List Char) :
    scan .block cs =
      (indexOf? ['*', '/'] cs).elim [] fun stop => scan .code (cs.drop (stop + 2)) := by
  induction cs with
  | nil => rfl
  | cons c cs ih =>
    by_cases h : ['*', '/'] <+: c :: cs
    · obtain ⟨ds, hds⟩ := h
      rw [← hds]
      rfl
    · rw [scan_block_cons h, ih, indexOf?_cons_of_not_prefix h]
      cases indexOf? ['*', '/'] cs <;> rfl

/-! ## What is left -/

theorem stripComments_eq_scan (cs : List Char) : stripComments cs = scan .code cs := by
  by_cases h : AtMark cs
  · obtain ⟨ds, rfl | rfl⟩ := h.cases
    · rw [stripComments_line, scan]
    · rw [stripComments_block, scan, scan_block]
      cases indexOf? ['*', '/'] ds with
      | none => rfl
      | some stop => exact stripComments_eq_scan (ds.drop (stop + 2))
  · cases cs with
    | nil => exact stripComments_nil
    | cons c cs => rw [stripComments_cons h, scan_code_cons h, stripComments_eq_scan cs]
termination_by cs.length

theorem scan_sublist (mode : Mode) (cs : List Char) : (scan mode cs).Sublist cs := by
  fun_induction scan mode cs with
  | case1 => exact .slnil
  | case2 => exact List.nil_sublist _
  | case3 cs ih => exact (ih.cons _).cons _
  | case4 c cs _ _ ih => exact ih.cons_cons c
  | case5 cs ih => exact (ih.cons _).cons _
  | case6 c cs _ ih => exact ih.cons c

/-- A mark that starts with a copied character stood there before: what is left of the rest starts
with the same character, or the rest starts with a slash itself. -/
theorem AtMark.of_scan {c : Char} {cs : List Char} (h : AtMark (c :: scan .code cs)) :
    AtMark (c :: cs) := by
  by_cases hrest : AtMark cs
  · have hslash : c = '/' := by
      obtain ⟨ds, hds | hds⟩ := h.cases
      · exact (List.cons.inj hds).1
      · exact (List.cons.inj hds).1
    obtain ⟨ds, rfl | rfl⟩ := hrest.cases
    · exact .inl ⟨'/' :: ds, by rw [hslash]; rfl⟩
    · exact .inl ⟨'*' :: ds, by rw [hslash]; rfl⟩
  · cases cs with
    | nil => exact h
    | cons d ds =>
      rw [scan_code_cons hrest] at h
      simpa [AtMark] using h

theorem not_holdsMark_scan (mode : Mode) (cs : List Char) : ¬ HoldsMark (scan mode cs) := by
  fun_induction scan mode cs with
  | case1 => decide
  | case2 => decide
  | case3 cs ih => exact ih
  | case4 c cs hline hblock ih =>
    rw [holdsMark_cons_iff, not_or]
    refine ⟨fun h => ?_, ih⟩
    obtain ⟨ds, hds | hds⟩ := h.of_scan.cases
    · obtain ⟨rfl, rfl⟩ := List.cons.inj hds
      exact hline ds rfl rfl
    · obtain ⟨rfl, rfl⟩ := List.cons.inj hds
      exact hblock ds rfl rfl
  | case5 cs ih => exact ih
  | case6 c cs _ ih => exact ih

theorem stripComments_of_not_holdsMark {cs : List Char} (h : ¬ HoldsMark cs) :
    stripComments cs = cs := by
  have happend : stripComments (cs ++ []) = cs ++ stripComments [] :=
    stripComments_append h fun _ => ⟨by decide, by decide⟩
  rwa [stripComments_nil, List.append_nil] at happend

/-- Searching for marks leaves what the scanner leaves: some of the characters, in their order and
without any mark of a comment, from which nothing more is taken out. -/
theorem stripComments_scans (cs : List Char) :
    stripComments cs = scan .code cs ∧
      ¬ ['/', '/'] <:+: stripComments cs ∧ ¬ ['/', '*'] <:+: stripComments cs ∧
      (stripComments cs).Sublist cs ∧
      stripComments (stripComments cs) = stripComments cs := by
  have hscan := stripComments_eq_scan cs
  have hmark : ¬ HoldsMark (stripComments cs) := hscan ▸ not_holdsMark_scan .code cs
  obtain ⟨hline, hblock⟩ := not_or.mp hmark
  have hsublist : (stripComments cs).Sublist cs := hscan ▸ scan_sublist .code cs
  exact ⟨hscan, hline, hblock, hsublist, stripComments_of_not_holdsMark hmark⟩

-- The star of `/*` ends no comment, and the slash of `*/` starts none.
example : scan .code "a/*/b*/c*//d".toList = "ac*".toList := by decide

end LayoutLint.ClosingBrace
