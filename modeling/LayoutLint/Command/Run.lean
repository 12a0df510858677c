import LayoutLint.Command.Catalogue
import LayoutLint.Command.Check
import LayoutLint.Command.Init
import LayoutLint.Command.Render

/-! # Running a command line

A command line is a function of its environment. What it changes is part of its outcome.
-/

namespace LayoutLint.Command

structure Outcome where
  exitCode : UInt8 := 0
  output : String := ""
  error : Option Error := none
  /-- Files to write, by absolute path. -/
  written : List (String × String) := []

namespace Outcome

def ofLines (lines : List String) : Outcome := { output := unlines lines }

def ofError (e : Error) : Outcome := { exitCode := 1, error := some e }

def usage : Outcome := { exitCode := 2 }

/-- The files after the outcome. -/
def apply (o : Outcome) (files : FileTree) : FileTree :=
  o.written.foldl (fun t (path, text) =>
    t.insert text.toUTF8 ((Path.segments path).filter (!Path.isVoid ·))) files

end Outcome

def version : String := "nbs-lint 0.1.0"

def usageLines : List String :=
  ["Layout linter for Go sources: line breaks and separator groups", "",
    "Usage: nbs-lint [OPTIONS] <COMMAND>", "", "Commands:",
    "  check       Run lint checks", "  list-rules  List available rules",
    "  init        Initialize configuration file"]

variable (reader : OutlineReader)

def runCheck (e : Environment) (o : CheckOptions) (requested : Option String) : Outcome :=
  match check reader e o requested with
  | .error error => .ofError error
  | .ok report =>
    { exitCode := if passes report then 0 else 1, output := render o.format report }

/-- Write a first configuration, unless there is one and it is not to be overwritten. -/
def runInit (e : Environment) (force : Bool) : Outcome :=
  let path := Path.join "." initialFileName
  match e.files.find (e.absolute path) with
  | .error _ =>
    { output := unlines initialSteps, written := [(e.absolute path, initialConfig)] }
  | .ok place =>
    if !force then .ofError (.configExists path)
    else if place.tree.isDirectory then .ofError (.notWritten path)
    else { output := unlines initialSteps, written := [(e.absolute path, initialConfig)] }

def runInvocation (e : Environment) (i : Invocation) : Outcome :=
  match i.action with
  | .check options => runCheck reader e options i.config
  | .listRules => .ofLines catalogue
  | .init force => runInit e force

def run (e : Environment) (args : List String) : Outcome :=
  match parse? (e.valueOf? configVariable) args with
  | none => .usage
  | some .version => .ofLines [version]
  | some .help => .ofLines usageLines
  | some (.run invocation) => runInvocation reader e invocation

end LayoutLint.Command
