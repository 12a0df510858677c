import LayoutLint.Discovery
import LayoutLint.Outline.OfTree
import LayoutLint.Report

/-! # Checking files

A linter runs the rules of a configuration over texts and collects one report. A file that cannot
be checked is noted in the report and changes nothing for the others.
-/

namespace LayoutLint

/-- What makes an outline of a text, or says why there is none. -/
abbrev OutlineReader := String → Except String Outline

def OutlineReader.standard : OutlineReader := fun text => .ok (Outline.ofText text.toList)

structure Linter where
  root : String
  rules : List Rule
  reader : OutlineReader
  exclusions : List Exclusion := []
  config : Config := {}
  /-- Texts with syntax errors are not checked. -/
  strict : Bool := false

namespace Linter

inductive Refusal where
  | noOutline (message : String)
  | syntaxErrors
  deriving DecidableEq, Repr

def Refusal.message : Refusal → String
  | noOutline message => message
  | syntaxErrors => "source contains syntax errors"

inductive Error where
  | missingReader
  | badPattern (error : Glob.Error)
  | refused (path : String) (refusal : Refusal)
  | badRoot (error : FileTree.Error)
  deriving DecidableEq, Repr

def Error.message : Error → String
  | missingReader => "No source parser configured"
  | badPattern e => s!"Invalid glob pattern: {e.message}"
  | refused path refusal => s!"Parse error in {path}: {refusal.message}"
  | badRoot e => s!"IO error: {e.message}"

/-- A linter that also leaves out what the patterns say, those given first and then those of the
configuration. -/
def build (root : String) (rules : List Rule) (reader : Option OutlineReader)
    (exclude : List String) (config : Config) (strict : Bool) : Except Error Linter := do
  match reader with
  | none => throw .missingReader
  | some reader =>
    match (exclude ++ config.files.exclude).mapM Exclusion.parse with
    | .error e => throw (.badPattern e)
    | .ok exclusions => return { root, rules, reader, exclusions, config, strict }

/-! ## One text -/

def withSeverity (s : Option Severity) (v : Violation) : Violation :=
  { v with severity := s.getD v.severity }

/-- What a rule reports under the configuration: nothing if it is disabled. -/
def ruleViolations (l : Linter) (r : Rule) (t : SourceText) (file : String) (o : Outline) :
    List Violation :=
  if l.config.isEnabled r.name then
    (r.violations t file o).map (withSeverity (l.config.severity? r.name))
  else []

/-- The outline of a text that is to be checked. -/
def outline (l : Linter) (text : String) : Except Refusal Outline :=
  match l.reader text with
  | .error message => .error (.noOutline message)
  | .ok o => if o.hasSyntaxErrors && l.strict then .error .syntaxErrors else .ok o

/-- What the rules report about a text, rule after rule. -/
def check (l : Linter) (path text : String) : Except Refusal (List Violation) :=
  match l.outline text with
  | .error refusal => .error refusal
  | .ok o =>
    let t := SourceText.ofString text
    .ok (l.rules.flatMap fun r => l.ruleViolations r t (Path.relativeTo path l.root) o)

/-- The check of a text as a part of a run, where an error tells which file it is about. -/
def checkAt (l : Linter) (path text : String) : Except Error (List Violation) :=
  (l.check path text).mapError (.refused path)

/-! ## Many files -/

inductive Outcome where
  | checked (violations : List Violation)
  | failed (failure : Failure)
  deriving DecidableEq, Repr

def Outcome.addTo (r : Report) : Outcome → Report
  | checked violations =>
    { r with violations := r.violations ++ violations, filesChecked := r.filesChecked + 1 }
  | failed failure => r.fail failure

def unreadable (e : FileTree.Error) : String := "failed to read file: " ++ e.message

/-- A file that cannot be read and a text that is refused are failures of that file; any other
error is one of the run. -/
def outcome (l : Linter) (f : SourceFile) : Except Error Outcome :=
  let fail (path message : String) := Outcome.failed ⟨Path.relativeTo path l.root, message⟩
  match f.content with
  | .error e => return fail f.path (unreadable e)
  | .ok text =>
    match l.checkAt f.path text with
    | .ok violations => return .checked violations
    | .error (.refused path refusal) => return fail path refusal.message
    | .error e => throw e

/-- The report on some outcomes. The first error ends it. -/
def collect (outcomes : List (Except Error Outcome)) : Except Error Report :=
  outcomes.foldlM (fun r outcome => return (← outcome).addTo r) {}

/-- The report on some files, whatever their order. -/
def report (l : Linter) (files : List SourceFile) : Except Error Report := do
  let sorted := files.mergeSort fun f g => Path.compare f.path g.path ≠ .gt
  return (← collect (sorted.map l.outcome)).sort

/-- The report on the files of a tree. -/
def run (l : Linter) (t : FileTree) : Except Error Report :=
  match Discovery.files l.config.files l.exclusions t l.root with
  | .error e => .error (.badRoot e)
  | .ok files => l.report files

end Linter

end LayoutLint
