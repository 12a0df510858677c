import LayoutLint.Guarded.ClosingBrace
import LayoutLint.Proofs.Guarded.Basic
import LayoutLint.Proofs.Rules.Comments
import Mathlib.Data.List.Basic

/-! # Closing braces without a stop

What is found after a brace starts and ends between two characters, so the slices exist, and the
lines above and below the brace are words.
-/

namespace LayoutLint.Guarded.ClosingBrace

open LayoutLint.ClosingBrace

/-! ## Comments -/

/-- A block comment comes first by bytes exactly if it does by characters. -/
theorem all_find?_lt {p q cs : List Char} {i : Nat} (hi : indexOf? p cs = some i) :
    (find? q cs).all (Text.byteLength (cs.take i) < ·) = (indexOf? q cs).all (i < ·) := by
  cases hq : indexOf? q cs with
  | none => simp [find?, hq]
  | some j =>
    have hlt := Text.byteLength_take_lt_iff (indexOf?_le_length hi) (indexOf?_le_length hq)
    simp [find?, hq, hlt]

theorem sliceTo_take (cs : List Char) (i : Nat) :
    sliceTo cs (Text.byteLength (cs.take i)) = .ok (cs.take i) := by
  have h := sliceTo_byteLength (cs.take i) (cs.drop i)
  rwa [List.take_append_drop] at h

theorem sliceTo_find? (p cs : List Char) :
    sliceTo cs ((find? p cs).getD (Text.byteLength cs)) =
      .ok (cs.take ((indexOf? p cs).getD cs.length)) := by
  cases hp : indexOf? p cs with
  | none => simpa [find?, hp] using sliceTo_take cs cs.length
  | some i => simpa [find?, hp] using sliceTo_take cs i

theorem sliceFrom_find? {p cs : List Char} {i : Nat} (hp : Text.byteLength p = 2)
    (hlen : p.length = 2) (hi : indexOf? p cs = some i) :
    sliceFrom cs (Text.byteLength (cs.take i) + 2) = .ok (cs.drop (i + 2)) := by
  obtain ⟨pre, post, rfl, rfl⟩ := exists_append_of_indexOf? hi
  have hpre : (pre ++ (p ++ post)).take pre.length = pre := List.take_left
  have hdrop : (pre ++ (p ++ post)).drop (pre.length + 2) = post := by
    rw [← hlen, ← List.length_append, ← List.append_assoc, List.drop_left]
  rw [hpre, hdrop, ← hp, ← Text.byteLength_append, ← List.append_assoc, sliceFrom_byteLength]

theorem find?_of_indexOf? {p cs : List Char} {i : Nat} (h : indexOf? p cs = some i) :
    find? p cs = some (Text.byteLength (cs.take i)) := by
  rw [find?, h]
  rfl

theorem add_byteLength_take {cs : List Char} (hcs : Text.byteLength cs < capacity) (i : Nat) :
    add (Text.byteLength (cs.take i)) 2 = .ok (Text.byteLength (cs.take i) + 2) := by
  have hsum := Text.byteLength_take_add_drop cs i
  exact add_ok_of_le_capacity (by omega) (by decide)

/-- One step does not stop, and what it leaves over is what is still to be stripped. -/
theorem stripStep_ok {cs : List Char} (hcs : Text.byteLength cs < capacity) :
    ∃ code rest?, stripStep cs = .ok (code, rest?) ∧
      LayoutLint.ClosingBrace.stripComments cs =
        code ++ rest?.elim [] LayoutLint.ClosingBrace.stripComments ∧
      ∀ rest, rest? = some rest → Text.byteLength rest < capacity := by
  rw [LayoutLint.ClosingBrace.stripComments]
  split
  case h_1 hb =>
    have hf : find? ['/', '*'] cs = none := by rw [find?, hb, Option.map_none]
    refine ⟨cs.take ((indexOf? ['/', '/'] cs).getD cs.length), none, ?_, by simp, by simp⟩
    simp only [stripStep, hf, sliceTo_find?, ok_bind, pure_eq_ok]
  case h_2 i hb =>
    simp only [stripStep, find?_of_indexOf? hb, all_find?_lt hb]
    split
    case isTrue =>
      simp only [sliceTo_take, add_byteLength_take hcs, sliceFrom_find? rfl rfl hb, ok_bind]
      have hafter : Text.byteLength (cs.drop (i + 2)) < capacity := by
        have := Text.byteLength_take_add_drop cs (i + 2)
        omega
      cases hstop : indexOf? ['*', '/'] (cs.drop (i + 2)) with
      | none =>
        have hf : find? ['*', '/'] (cs.drop (i + 2)) = none := by
          rw [find?, hstop, Option.map_none]
        exact ⟨cs.take i, none, by simp only [hf, pure_eq_ok], by simp, by simp⟩
      | some j =>
        have hdrop : (cs.drop (i + 2)).drop (j + 2) = cs.drop (i + 2 + j + 2) := by
          rw [List.drop_drop]
          congr 1
        refine ⟨cs.take i, some (cs.drop (i + 2 + j + 2)), ?_, rfl, ?_⟩
        · simp only [find?_of_indexOf? hstop, add_byteLength_take hafter,
            sliceFrom_find? rfl rfl hstop, ok_bind, hdrop, pure_eq_ok]
        · intro rest h
          cases h
          have := Text.byteLength_take_add_drop cs (i + 2 + j + 2)
          omega
    case isFalse =>
      refine ⟨cs.take ((indexOf? ['/', '/'] cs).getD cs.length), none, ?_, by simp, by simp⟩
      simp only [sliceTo_find?, ok_bind, pure_eq_ok]

theorem stripComments_ok {cs : List Char} (hcs : Text.byteLength cs < capacity) :
    stripComments cs = .ok (LayoutLint.ClosingBrace.stripComments cs) := by
  obtain ⟨code, rest?, hstep, hmodel, hrest⟩ := stripStep_ok hcs
  rw [stripComments, hmodel]
  split
  case h_1 e he =>
    rw [hstep] at he
    cases he
  case h_2 he =>
    rw [hstep] at he
    cases he
    simp
  case h_3 code' rest he =>
    rw [hstep] at he
    cases he
    rw [stripComments_ok (hrest rest rfl)]
    rfl
termination_by cs.length
decreasing_by exact length_lt_of_stripStep hstep

theorem continues_ok {tail : List Char} (h : Text.byteLength tail < capacity) :
    continues tail = .ok (LayoutLint.ClosingBrace.continues tail) := by
  rw [continues, stripComments_ok h]
  rfl

/-! ## The check -/

variable (t : SourceText)

theorem braceSpan_ok {offset : Nat} (h : offset + 1 < Word.count) :
    braceSpan offset = .ok (LayoutLint.ClosingBrace.braceSpan offset) := by
  rw [braceSpan, add_ok h]
  rfl

theorem findingIf_ok {offset : Nat} (h : offset + 1 < Word.count) (bad : Bool)
    (finding : Span → Finding) :
    findingIf bad offset finding =
      .ok (if bad then [finding (LayoutLint.ClosingBrace.braceSpan offset)] else []) := by
  cases bad with
  | false => rfl
  | true => simp only [findingIf, braceSpan_ok h, if_true, ok_bind, pure_eq_ok]

theorem byteLength_tailAfter_le (offset : Nat) :
    Text.byteLength (LayoutLint.ClosingBrace.tailAfter t offset) ≤ t.size := by
  rw [LayoutLint.ClosingBrace.tailAfter]
  cases hl : t.line? (t.lineAt offset) with
  | none => exact Nat.zero_le _
  | some line =>
    rw [Option.bind_some]
    cases hd : Text.dropBytes ((t.position offset).column + 1) line with
    | none => exact Nat.zero_le _
    | some tail =>
      obtain ⟨pre, rfl, -⟩ := Text.exists_append_of_dropBytes hd
      have hle := t.byteLength_line_le hl
      rw [Text.byteLength_append] at hle
      exact Nat.le_trans (Nat.le_add_left _ _) hle

variable {t} (ht : t.size < capacity)
include ht

theorem tailAfter_ok (offset : Nat) :
    tailAfter t offset = .ok (LayoutLint.ClosingBrace.tailAfter t offset) := by
  rw [tailAfter, position_ok, ok_bind, lineOf_ok, ok_bind, LayoutLint.ClosingBrace.tailAfter]
  cases t.line? (t.lineAt offset) with
  | none => rfl
  | some line =>
    rw [add_column_ok ht]
    rfl

theorem hasBlankBefore_ok (b : Block) :
    hasBlankBefore t b = .ok (LayoutLint.ClosingBrace.hasBlankBefore t b) := by
  rw [hasBlankBefore, lineOf_ok, ok_bind, lineOf_ok, ok_bind,
    add_lineAt_ok ht b.lbrace Nat.le.refl, ok_bind, LayoutLint.ClosingBrace.hasBlankBefore]
  split
  case isTrue hlt => simp [Nat.not_le.mpr hlt]
  case isFalse hge =>
    have hle := Nat.le_of_not_lt hge
    rw [sub_ok (by omega : 1 ≤ t.lineAt b.rbrace)]
    simp [hle]

theorem lacksBlankAfter_ok (b : Block) :
    lacksBlankAfter t b = .ok (LayoutLint.ClosingBrace.lacksBlankAfter t b) := by
  have htail := Nat.lt_of_le_of_lt (byteLength_tailAfter_le t b.rbrace) ht
  rw [lacksBlankAfter, lineOf_ok, ok_bind, add_lineAt_ok ht b.rbrace (by decide), ok_bind,
    LayoutLint.ClosingBrace.lacksBlankAfter]
  cases t.trimmedLine? (t.lineAt b.rbrace + 1) with
  | none => rfl
  | some next =>
    cases hm : mayFollow next with
    | true => simp [hm]
    | false => simp [hm, tailAfter_ok ht, continues_ok htail]

theorem blockFindings_ok {b : Block} (hb : b.rbrace + 1 < Word.count) :
    blockFindings t b = .ok (LayoutLint.ClosingBrace.blockFindings t b) := by
  rw [blockFindings, hasBlankBefore_ok ht, ok_bind, findingIf_ok hb, ok_bind,
    lacksBlankAfter_ok ht, ok_bind, findingIf_ok hb]
  rfl

omit ht in
theorem foldl_min_le (first : Nat) (rest : List Nat) : rest.foldl min first ≤ first := by
  induction rest generalizing first with
  | nil => exact Nat.le_refl first
  | cons n rest ih => exact Nat.le_trans (ih (min first n)) (Nat.min_le_left first n)

def crowded? (closes : List (Nat × Nat)) (line : Nat) : Option Finding :=
  match closesOn closes line with
  | first :: second :: rest =>
    some (multipleClosesAt (LayoutLint.ClosingBrace.braceSpan ((second :: rest).foldl min first)))
  | _ => none

omit ht in
theorem lineFindings_ok {closes : List (Nat × Nat)} (hn : closes.length < Word.count)
    (hc : ∀ c ∈ closes, c.2 + 1 < Word.count) (line : Nat) :
    lineFindings closes line = .ok (crowded? closes line).toList := by
  have hlen : (closesOn closes line).length ≤ closes.length := by
    rw [closesOn, List.length_map]
    exact List.length_filter_le _ _
  rw [lineFindings, crowded?]
  cases hon : closesOn closes line with
  | nil => rfl
  | cons first rest =>
    rw [hon] at hlen
    have hfirst : first + 1 < Word.count := by
      have hmem : first ∈ closesOn closes line := hon ▸ List.mem_cons_self
      obtain ⟨c, hfilter, rfl⟩ := List.mem_map.mp hmem
      exact hc c (List.mem_filter.mp hfilter).1
    have hmin := foldl_min_le first rest
    simp only [tally_ok (Nat.lt_of_le_of_lt hlen hn), ok_bind,
      findingIf_ok (by omega : rest.foldl min first + 1 < Word.count)]
    cases rest with
    | nil => rfl
    | cons second rest => simp

theorem findings_ok {o : Outline} (hn : o.blocks.length < Word.count)
    (hb : ∀ b ∈ o.blocks, b.rbrace + 1 < Word.count) :
    findings t o = .ok (LayoutLint.ClosingBrace.findings t o) := by
  have hcloses : (o.blocks.mapM fun b => do return (← lineOf t b.rbrace, b.rbrace) : Run _) =
      .ok (o.blocks.map fun b => (t.lineAt b.rbrace, b.rbrace)) :=
    mapM_ok fun b _ => by rw [lineOf_ok]; rfl
  have hlines : ∀ line, lineFindings (o.blocks.map fun b => (t.lineAt b.rbrace, b.rbrace)) line =
      .ok (crowded? (o.blocks.map fun b => (t.lineAt b.rbrace, b.rbrace)) line).toList := by
    refine lineFindings_ok (by rwa [List.length_map]) ?_
    rintro _ hc
    obtain ⟨b, hmem, rfl⟩ := List.mem_map.mp hc
    exact hb b hmem
  rw [findings, mapM_ok fun b hmem => blockFindings_ok ht (hb b hmem), ok_bind, hcloses, ok_bind,
    mapM_ok fun line _ => hlines line, ok_bind, ← List.flatMap_def, ← List.flatMap_def,
    ← List.filterMap_eq_flatMap_toList]
  rfl

end LayoutLint.Guarded.ClosingBrace
