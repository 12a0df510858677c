import LayoutLint.Command.Reach

/-! # The command line

Loads the files that a command line looks at, runs it, and carries out its outcome.
-/

namespace LayoutLint.Main

open Command

/-- The names in an absolute path; `..` takes back the name before it. -/
def names (path : String) : List String :=
  (Path.segments path).foldl (fun names segment =>
    if Path.isVoid segment then names
    else if segment = ".." then names.dropLast
    else names ++ [segment]) []

/-- Add a file or an empty directory of the disk to a tree, if it is there. -/
def loadEntry (t : FileTree) (path : String) : IO FileTree := do
  let entry := (← IO.currentDir) / path
  if ← entry.isDir then return t.makeDirectory (names path)
  else if ← entry.pathExists then return t.insert (← IO.FS.readBinFile entry) (names path)
  else return t

/-- Add all that is at or below a path. -/
def loadAll (t : FileTree) (path : String) : IO FileTree := do
  let mut t ← loadEntry t path
  let entry := (← IO.currentDir) / path
  if ← entry.isDir then
    for found in ← entry.walkDir do
      t ← loadEntry t found.toString
  return t

/-- The paths that an absolute path leads through. -/
def pathsThrough (path : String) : List String :=
  let segments := Path.segments path
  (List.range segments.length).map fun n => "/".intercalate (segments.take (n + 1)) ++ "/"

/-- Add what is checked, the directories on the way to it, and their ignore files. -/
def loadRoot (t : FileTree) (root : String) : IO FileTree := do
  let mut t := t
  for directory in pathsThrough root do
    t ← loadEntry t directory
    for file in ignoreFiles do
      t ← loadEntry t (directory ++ file)
  loadAll t root

def bindings : IO (List (String × String)) :=
  [configVariable, configDirectoryVariable, homeVariable].filterMapM fun name => do
    return (← IO.getEnv name).map fun value => (name, value)

def environment (args : List String) : IO Environment := do
  let workingDirectory := (← IO.currentDir).toString
  let start : Environment := {
    files := FileTree.makeDirectory (names workingDirectory) default
    workingDirectory
    bindings := ← bindings }
  let files ← (settingsPaths start args).foldlM loadEntry start.files
  let settled := { start with files }
  match root? settled args with
  | none => return settled
  | some root => return { settled with files := ← loadRoot settled.files root }

end LayoutLint.Main

open LayoutLint in
def main (args : List String) : IO UInt32 := do
  let outcome := Command.run .standard (← Main.environment args) args
  for (path, text) in outcome.written do
    IO.FS.writeFile path text
  IO.print outcome.output
  if let some error := outcome.error then IO.eprintln s!"Error: {error.message}"
  return outcome.exitCode.toUInt32
