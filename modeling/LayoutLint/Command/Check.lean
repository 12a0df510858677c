import LayoutLint.Command.Arguments
import LayoutLint.Command.Environment
import LayoutLint.Linter

/-! # The check

From options and configuration to a linter and its report.
-/

namespace LayoutLint.Command

inductive Error where
  | config (source : ConfigSource)
  | unknownPreset (name : String)
  | build (error : Linter.Error)
  | analysis (error : Linter.Error)
  | configExists (path : String)
  | notWritten (path : String)
  deriving DecidableEq, Repr

def Error.message : Error → String
  | config source => s!"Failed to load config: {source.describe}"
  | unknownPreset name =>
    s!"Unknown preset '{name}' (expected recommended, line-breaks or separators)"
  | build _ => "Failed to build analyzer"
  | analysis _ => "Analysis failed"
  | configExists path =>
    s!"Configuration file already exists at {path}. Use --force to overwrite."
  | notWritten path => s!"Failed to write {path}"

/-! ## Choosing rules -/

/-- Names or codes of rules between commas, without the blanks around them. -/
def ruleNames (list : String) : List String :=
  (list.toList.splitOn ',').map fun part => String.ofList (Text.trim part)

def isNamed (names : List String) (r : Rule) : Bool :=
  names.contains r.name || names.contains r.code

/-- The rules of a check: those of the preset, or those of the recommended ones that are named. -/
def chosenRules (config : Config) (preset : Preset) (list : Option String) : List Rule :=
  match list with
  | none => config.rulesOf preset
  | some list => (config.rulesOf .recommended).filter (isNamed (ruleNames list))

/-! ## Running -/

/-- The directory or file to check: the given one, or that of the configuration. -/
def checkRoot (e : Environment) (config : Config) (o : CheckOptions) : String :=
  e.absolute (o.path.getD config.files.root)

def configOf (e : Environment) (o : CheckOptions) (requested : Option String) :
    Except Error Config :=
  let source := ConfigSource.resolve e (o.path.getD ".") requested
  match source.load? e with
  | none => .error (.config source)
  | some config => .ok config

variable (reader : OutlineReader)

def linterOf (e : Environment) (config : Config) (o : CheckOptions) : Except Error Linter :=
  match config.preset? with
  | none => .error (.unknownPreset (config.preset.getD ""))
  | some preset =>
    match Linter.build (checkRoot e config o) (chosenRules config preset o.rules)
        (some reader) o.exclude config o.strictParse with
    | .error error => .error (.build error)
    | .ok l => .ok l

/-- The report of a check. -/
def check (e : Environment) (o : CheckOptions) (requested : Option String) :
    Except Error Report := do
  let l ← linterOf reader e (← configOf e o requested) o
  match l.run e.files with
  | .error error => .error (.analysis error)
  | .ok report => .ok report

/-! ## Back to the sources -/

/-- The directory that the paths of a report are seen from. -/
def sourceDirectory (files : FileTree) (root : String) : String :=
  if files.isFileAt root then (Path.parent? root).getD root else root

/-- The text that a violation was found in, read again. -/
def sourceText (files : FileTree) (root : String) (v : Violation) :
    Except FileTree.Error String :=
  files.read (Path.join (sourceDirectory files root) v.location.file)

/-! ## The verdict -/

/-- A check passes if nothing of the severity of an error was found and every file was checked. -/
def passes (r : Report) : Bool := !r.hasErrors && !r.hasFailures

end LayoutLint.Command
