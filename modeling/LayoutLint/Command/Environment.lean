import LayoutLint.Config
import LayoutLint.FileTree

/-! # Environment and configuration

The files, the working directory and the variables that a command sees, and where it takes its
configuration from. The first of these that exists counts: the file that is asked for, one in the
checked directory, one for the user, and no file at all.
-/

namespace LayoutLint.Command

structure Environment where
  files : FileTree
  /-- An absolute path. -/
  workingDirectory : String
  /-- Variables and their values. -/
  bindings : List (String × String) := []

namespace Environment

def valueOf? (e : Environment) (name : String) : Option String := e.bindings.lookup name

def absolute (e : Environment) (path : String) : String := Path.join e.workingDirectory path

def isFile (e : Environment) (path : String) : Bool := e.files.isFileAt (e.absolute path)

end Environment

/-- Names of the variables that count. -/
def configVariable : String := "NBS_LINT_CONFIG"
def configDirectoryVariable : String := "NBS_LINT_CONFIG_DIR"
def homeVariable : String := "HOME"

/-- Names of a configuration file in the checked directory, the first one preferred. -/
def configFileNames : List String := ["nbs-lint.toml", ".nbs-lint.toml"]

inductive ConfigSource where
  | requested (path : String)
  | project (path : String)
  | user (path : String)
  | builtIn
  deriving DecidableEq, Repr

namespace ConfigSource

def path? : ConfigSource → Option String
  | requested path => some path
  | project path => some path
  | user path => some path
  | builtIn => none

def describe : ConfigSource → String
  | requested path => path ++ " (--config)"
  | project path => path
  | user path => path ++ " (global)"
  | builtIn => "built-in defaults"

/-- The directory of the configuration for the user. -/
def userDirectory? (e : Environment) : Option String :=
  (e.valueOf? configDirectoryVariable).or
    ((e.valueOf? homeVariable).map fun home => Path.join home ".nbs-lint")

def userPath? (e : Environment) : Option String :=
  (userDirectory? e).map fun directory => Path.join directory "config.toml"

/-- Where a check of a directory takes its configuration from. -/
def resolve (e : Environment) (directory : String) (requested? : Option String) : ConfigSource :=
  match requested? with
  | some path => requested path
  | none =>
    match (configFileNames.map (Path.join directory)).find? e.isFile with
    | some path => project path
    | none =>
      match (userPath? e).filter e.isFile with
      | some path => user path
      | none => builtIn

/-- The configuration, unless its file cannot be read or does not make sense. -/
def load? (e : Environment) (source : ConfigSource) : Option Config :=
  match source.path? with
  | none => some {}
  | some path =>
    match e.files.read (e.absolute path) with
    | .error _ => none
    | .ok text => Config.parse? text

end ConfigSource

end LayoutLint.Command
