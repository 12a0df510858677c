import LayoutLint.Ignore.Rules

/-! # Layers of ignore files

Every directory brings its own ignore files, which speak about the paths below it. The files of
inner directories come before those of outer ones, `.ignore` before `.gitignore`, and that before
the exclude file of a repository.
-/

namespace LayoutLint.Ignore

/-- The ignore files of a directory. -/
structure Layer where
  /-- The number of names in the path of the directory. -/
  depth : Nat
  plain : List Rule
  git : List Rule
  exclude : List Rule
  /-- The directory is the top of a repository. -/
  isRepository : Bool

/-- The rules in the file that a path of names leads to. -/
def rulesAt (t : FileTree) : List String → List Rule
  | [] =>
    match t with
    | .file bytes => rulesOf bytes
    | .directory _ => []
  | name :: path =>
    match t.child? name with
    | some t => rulesAt t path
    | none => []

namespace Layer

/-- The layer of a directory that is walked. -/
def inside (respectGitignore : Bool) (depth : Nat) (t : FileTree) : Layer where
  depth := depth
  plain := rulesAt t [".ignore"]
  git := if respectGitignore then rulesAt t [".gitignore"] else []
  exclude := rulesAt t [".git", "info", "exclude"]
  isRepository := (t.child? ".git").isSome

/-- The layer of a directory above the walk; it makes a repository only where git files count. -/
def above (respectGitignore : Bool) (depth : Nat) (t : FileTree) : Layer :=
  let layer := inside respectGitignore depth t
  { layer with isRepository := respectGitignore && layer.isRepository }

def pathBelow (l : Layer) (names : List String) : List UInt8 :=
  ("/".intercalate (names.drop l.depth)).toList.flatMap bytesOf

end Layer

/-- The first verdict of some rules of the layers, innermost first. -/
def firstVerdict? (rules : Layer → List Rule) (layers : List Layer) (names : List String)
    (isDirectory : Bool) : Option Verdict :=
  layers.findSome? fun l => verdict? (rules l) (l.pathBelow names) isDirectory

/-- The layers up to the first top of a repository; none if there is no repository. -/
def repositoryLayers (layers : List Layer) : List Layer :=
  if layers.any Layer.isRepository then
    layers.takeWhile (!·.isRepository) ++ (layers.find? Layer.isRepository).toList
  else []

/-- Whether the layers, innermost first, leave out a path. -/
def isIgnored (layers : List Layer) (names : List String) (isDirectory : Bool) : Bool :=
  let inRepository := repositoryLayers layers
  let verdict :=
    (firstVerdict? Layer.plain layers names isDirectory).or
      ((firstVerdict? Layer.git inRepository names isDirectory).or
        (firstVerdict? Layer.exclude inRepository names isDirectory))
  verdict = some .ignored

end LayoutLint.Ignore
