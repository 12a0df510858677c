import LayoutLint.Command.Run

/-! # What a command line looks at

The files and directories whose content can matter to a command line.
-/

namespace LayoutLint.Command

/-- Paths of the configuration files that may be read or written. -/
def configPaths (e : Environment) : Action → Option String → List String
  | .check options, requested =>
    requested.toList ++ configFileNames.map (Path.join (options.path.getD ".")) ++
      (ConfigSource.userPath? e).toList
  | .listRules, _ => []
  | .init _, _ => [initialFileName]

/-- Absolute paths of the files that settle the configuration. -/
def settingsPaths (e : Environment) (args : List String) : List String :=
  match parse? (e.valueOf? configVariable) args with
  | some (.run i) => (configPaths e i.action i.config).map e.absolute
  | _ => []

/-- What is to be checked, once the files that settle the configuration are there. -/
def root? (e : Environment) (args : List String) : Option String :=
  match parse? (e.valueOf? configVariable) args with
  | some (.run ⟨.check options, requested, _⟩) =>
    (configOf e options requested).toOption.map fun config => checkRoot e config options
  | _ => none

/-- Names of the files in a directory above a check that bear on it. -/
def ignoreFiles : List String := [".ignore", ".gitignore", ".git/info/exclude", ".git/HEAD"]

end LayoutLint.Command
