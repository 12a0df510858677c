import LayoutLint.Guarded.ClosingBrace
import LayoutLint.Guarded.Separator
import LayoutLint.Linter

/-! # Rules, step by step

What a rule reports, and what a linter reports about a text, with a fault where a step stops.
-/

namespace LayoutLint.Guarded

/-! ## Placement of `defer` -/

namespace DeferPlacement

open LayoutLint.DeferPlacement

variable (t : SourceText)

def bodyLines (o : Outline) : Run (List Nat) :=
  (o.blocks.filter (·.kind = .functionBody)).mapM fun b => lineOf t b.lbrace

def isMisplaced (bodies : List Nat) (d : Nat) : Run Bool :=
  if 1 ≤ d then do
    if t.isBlankLine (← sub d 1) then
      if 2 ≤ d then return !bodies.contains (← sub d 2) else return true
    else return false
  else return false

def findingsWith (bodies : List Nat) (o : Outline) : Run (List Finding) := do
  let misplaced ← filter (fun s => do isMisplaced t bodies (← lineOf t s.start)) o.defers
  return misplaced.map blankBeforeAt

def findings (o : Outline) : Run (List Finding) := do findingsWith t (← bodyLines t o) o

end DeferPlacement

/-! ## The gap after a signature -/

namespace SignatureGap

open LayoutLint.SignatureGap

variable (t : SourceText)

def isMultiline (s : Span) : Run Bool :=
  if s.isEmpty then return false
  else do return (← lineOf t s.start) != (← lineOf t (← sub s.stop 1))

def gap (comments : List Comment) (b : FuncBody) : Run Nat := do
  let above ← lineOf t b.lbrace
  let below ← lineOf t (firstOffset b)
  let lines ← comments.mapM fun c => lineOf t c.span.start
  return (lines.find? fun l => above < l && l < below).getD below - above

def functionFinding? (comments : List Comment) (f : FuncDecl) : Run (Option Finding) :=
  match f.body with
  | none => return none
  | some body => do
    if ← isMultiline t f.params then
      let gap ← gap t comments body
      if gap = 2 then return none
      else if gap < 2 then return some (gapAt body gapRequired)
      else return some (gapAt body (gapTooLong (← sub gap 1)))
    else return none

def findings (o : Outline) : Run (List Finding) := do
  return (← o.functions.mapM (functionFinding? t o.comments)).filterMap id

end SignatureGap

/-! ## Rules -/

variable (t : SourceText)

def findings (c : Check) (o : Outline) : Run (List Finding) :=
  match c with
  | .closingBrace => ClosingBrace.findings t o
  | .deferPlacement => DeferPlacement.findings t o
  | .signatureGap => SignatureGap.findings t o
  | .separatorGroups options => Separator.findings t options o

def report (r : Rule) (file : String) (f : Finding) : Run Violation := do
  return r.reportAt (← location t file f.span) f

/-- The rule's report, with a fault where a step of it stops. -/
def violations (r : Rule) (file : String) (o : Outline) : Run (List Violation) := do
  (← findings t r.check o).mapM (report t r file)

/-! ## Texts -/

def ruleViolations (l : Linter) (r : Rule) (file : String) (o : Outline) :
    Run (List Violation) :=
  if l.config.isEnabled r.name then do
    return (← violations t r file o).map (Linter.withSeverity (l.config.severity? r.name))
  else return []

/-- What the linter says about a text. A text that it refuses is not looked at. -/
def check (l : Linter) (path text : String) : Run (Except Linter.Refusal (List Violation)) :=
  match l.outline text with
  | .error refusal => return .error refusal
  | .ok o => do
    let t := SourceText.ofString text
    let found ← l.rules.mapM fun r => ruleViolations t l r (Path.relativeTo path l.root) o
    return .ok found.flatten

end LayoutLint.Guarded
