import LayoutLint.Guarded.Basic
import LayoutLint.Rules.ClosingBrace

/-! # Closing braces, step by step

The text after a brace is searched and sliced by bytes, and every sum is a word.
-/

namespace LayoutLint.Guarded.ClosingBrace

open LayoutLint.ClosingBrace

/-! ## Comments -/

/-- The byte at which `pattern` first stands in the text. -/
def find? (pattern cs : List Char) : Option Nat :=
  (indexOf? pattern cs).map fun i => Text.byteLength (cs.take i)

/-- The code before the first comment, and the text after it if that goes on. -/
def stripStep (cs : List Char) : Run (List Char × Option (List Char)) :=
  let line? := find? ['/', '/'] cs
  match find? ['/', '*'] cs with
  | none => do return (← sliceTo cs (line?.getD (Text.byteLength cs)), none)
  | some start =>
    if line?.all (start < ·) then do
      let code ← sliceTo cs start
      let after ← sliceFrom cs (← add start 2)
      match find? ['*', '/'] after with
      | none => return (code, none)
      | some stop => return (code, some (← sliceFrom after (← add stop 2)))
    else do return (← sliceTo cs (line?.getD (Text.byteLength cs)), none)

theorem length_lt_of_stripStep {cs code rest : List Char}
    (h : stripStep cs = .ok (code, some rest)) : rest.length < cs.length := by
  rw [stripStep] at h
  split at h
  case h_1 =>
    obtain ⟨_, -, h⟩ := bind_eq_ok h
    cases h
  case h_2 start _ =>
    split at h
    case isTrue =>
      obtain ⟨_, -, h⟩ := bind_eq_ok h
      obtain ⟨n, hn, h⟩ := bind_eq_ok h
      obtain ⟨after, hafter, h⟩ := bind_eq_ok h
      split at h
      case h_1 => cases h
      case h_2 =>
        obtain ⟨m, -, h⟩ := bind_eq_ok h
        obtain ⟨rest', hrest, h⟩ := bind_eq_ok h
        cases h
        have hpast := (length_le_of_sliceFrom hafter).2 (by rw [add_eq_ok hn]; omega)
        have hleft := (length_le_of_sliceFrom hrest).1
        omega
    case isFalse =>
      obtain ⟨_, -, h⟩ := bind_eq_ok h
      cases h

def stripComments (cs : List Char) : Run (List Char) :=
  match _h : stripStep cs with
  | .error e => .error e
  | .ok (code, none) => .ok code
  | .ok (code, some rest) => do return code ++ (← stripComments rest)
termination_by cs.length
decreasing_by exact length_lt_of_stripStep _h

def continues (tail : List Char) : Run Bool := do return goesOn (← stripComments tail)

/-! ## The check -/

variable (t : SourceText)

def braceSpan (offset : Nat) : Run Span := do return ⟨offset, ← add offset 1⟩

def tailAfter (offset : Nat) : Run (List Char) := do
  let column := (← position t offset).column
  match t.line? (← lineOf t offset) with
  | none => return []
  | some line => return (Text.dropBytes (← add column 1) line).getD []

def hasBlankBefore (b : Block) : Run Bool := do
  let opening ← lineOf t b.lbrace
  let closing ← lineOf t b.rbrace
  if closing < (← add opening 2) then return false
  else return t.isBlankLine (← sub closing 1)

def lacksBlankAfter (b : Block) : Run Bool := do
  let closing ← lineOf t b.rbrace
  match t.trimmedLine? (← add closing 1) with
  | none => return false
  | some next =>
    if mayFollow next then return false else return !(← continues (← tailAfter t b.rbrace))

/-- The finding at a brace, if there is one. -/
def findingIf (bad : Bool) (offset : Nat) (finding : Span → Finding) : Run (List Finding) :=
  if bad then do return [finding (← braceSpan offset)] else return []

def blockFindings (b : Block) : Run (List Finding) := do
  let before ← findingIf (← hasBlankBefore t b) b.rbrace blankBeforeAt
  let after ← findingIf (← lacksBlankAfter t b) b.rbrace missingAfterAt
  return before ++ after

/-- The finding about the braces on one line, which are counted. -/
def lineFindings (closes : List (Nat × Nat)) (line : Nat) : Run (List Finding) :=
  match closesOn closes line with
  | [] => return []
  | first :: rest => do
    let n ← tally (first :: rest)
    findingIf (1 < n) (rest.foldl min first) multipleClosesAt

def findings (o : Outline) : Run (List Finding) := do
  let blocks ← o.blocks.mapM (blockFindings t)
  let closes ← o.blocks.mapM fun b => do return (← lineOf t b.rbrace, b.rbrace)
  let lines ← (List.range t.lineCount).mapM (lineFindings closes)
  return blocks.flatten ++ lines.flatten

end LayoutLint.Guarded.ClosingBrace
