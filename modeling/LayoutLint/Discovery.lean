import LayoutLint.Config
import LayoutLint.Exclusion
import LayoutLint.Ignore.Layer

/-! # Finding the files to check

All Go files at or below a root, except those that ignore files or exclude patterns leave out.
-/

namespace LayoutLint

/-- A file to check, with its text or why it cannot be read. -/
structure SourceFile where
  path : String
  content : Except FileTree.Error String

namespace Discovery

/-- A file of a tree, with its names from the top down. -/
structure Found where
  names : List String
  bytes : ByteArray

mutual

/-- The files at and below a place that the layers, innermost first, do not leave out. -/
def walk (respectGitignore : Bool) (layers : List Ignore.Layer) (names : List String) :
    FileTree → List Found
  | .file bytes => [⟨names, bytes⟩]
  | .directory entries =>
    let layer := Ignore.Layer.inside respectGitignore names.length (.directory entries)
    walkEntries respectGitignore (layer :: layers) names entries

def walkEntries (respectGitignore : Bool) (layers : List Ignore.Layer) (names : List String) :
    List (String × FileTree) → List Found
  | [] => []
  | (name, t) :: rest =>
    let here := names ++ [name]
    let found :=
      if Ignore.isIgnored layers here t.isDirectory then []
      else walk respectGitignore layers here t
    found ++ walkEntries respectGitignore layers names rest

end

/-- The layers of the directories on the way down to a place, innermost first. -/
def layersAbove (respectGitignore : Bool) (depth : Nat) (t : FileTree) :
    List String → List Ignore.Layer
  | [] => []
  | name :: names =>
    let inner := match t.child? name with
      | some t => layersAbove respectGitignore (depth + 1) t names
      | none => []
    inner ++ [Ignore.Layer.above respectGitignore depth t]

/-- The files below a place of a tree, as the ignore files have it. -/
def filesBelow (config : FileConfig) (t : FileTree) (place : FileTree.Place) : List Found :=
  let layers :=
    if place.tree.isDirectory then layersAbove config.respectGitignore 0 t place.names else []
  walk config.respectGitignore layers place.names place.tree

def isSource (path : String) : Bool := Path.extension? path == some "go"

/-- The files to check at an absolute path. -/
def files (config : FileConfig) (exclusions : List Exclusion) (t : FileTree) (root : String) :
    Except FileTree.Error (List SourceFile) := do
  let place ← t.find root
  let found := (filesBelow config t place).map fun f =>
    ((f.names.drop place.names.length).foldl Path.join root, f.bytes)
  let chosen := found.filter fun (path, _) =>
    isSource path && !exclusions.any (·.excludes path)
  return chosen.map fun (path, bytes) => ⟨path, FileTree.textOf bytes⟩

end Discovery

end LayoutLint
