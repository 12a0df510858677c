import LayoutLint.Command.Arguments
import LayoutLint.Report.Json

/-! # Reports as text

What a check prints about its report.
-/

namespace LayoutLint.Command

/-- Lines, each with its end. -/
def unlines (lines : List String) : String := String.join (lines.map (· ++ "\n"))

/-! ## Colours -/

inductive Colour where
  | red
  | yellow
  | green
  deriving DecidableEq, Repr

def Colour.start : Colour → String
  | red => "\x1b[31m"
  | yellow => "\x1b[33m"
  | green => "\x1b[32m"

def paint (c : Colour) (text : String) : String := c.start ++ text ++ "\x1b[0m"

/-! ## Parts -/

def failureLines (r : Report) : List String :=
  r.failures.map fun f => paint .red "failed" ++ s!" {f.path}: {f.message}"

def summaryColour (r : Report) : Colour :=
  if 0 < r.count .error || r.hasFailures then .red
  else if 0 < r.count .warning then .yellow
  else .green

def countLine (r : Report) : String :=
  s!"Found {r.count .error} error(s), {r.count .warning} warning(s), " ++
  s!"{r.count .info} info(s) in {r.filesChecked} file(s), {r.failures.length} failed"

def categoryCount (r : Report) (c : Category) : String :=
  s!"{c.name}: {(r.ofCategory c).length}"

/-- The counts, and how they divide among the categories if there is anything to divide. -/
def summaryLines (r : Report) : List String :=
  paint (summaryColour r) (countLine r) ::
    if r.violations.isEmpty then []
    else ["  " ++ ", ".intercalate (Category.all.map (categoryCount r))]

/-! ## Formats -/

def renderText (r : Report) : String :=
  unlines (r.violations.map Violation.format ++ failureLines r ++ summaryLines r)

def renderCompact (r : Report) : String :=
  unlines (r.violations.map Violation.display ++
    r.failures.map fun f => s!"{f.path}: failed: {f.message}")

def renderJson (r : Report) : String := unlines [r.toJson.pretty]

/-- A violation under its headline. -/
def prettyLines (v : Violation) : List String :=
  [v.headline, s!"  {v.place}: {v.note}"] ++ (v.suggestion.map ("  help: " ++ ·)).toList

def renderPretty (r : Report) : String :=
  unlines (r.violations.flatMap prettyLines ++ failureLines r ++ summaryLines r)

def render (f : Format) (r : Report) : String :=
  match f with
  | .text => renderText r
  | .json => renderJson r
  | .compact => renderCompact r
  | .pretty => renderPretty r

end LayoutLint.Command
