import LayoutLint.Path

/-! # File trees

Files and directories by name, and finding them by path.
-/

namespace LayoutLint

inductive FileTree where
  | file (bytes : ByteArray)
  | directory (entries : List (String × FileTree))

namespace FileTree

instance : Inhabited FileTree := ⟨directory []⟩

inductive Error where
  | notFound
  | notDirectory
  | isDirectory
  | notText
  deriving DecidableEq, Repr

def Error.message : Error → String
  | notFound => "No such file or directory (os error 2)"
  | notDirectory => "Not a directory (os error 20)"
  | isDirectory => "Is a directory (os error 21)"
  | notText => "stream did not contain valid UTF-8"

def isDirectory : FileTree → Bool
  | directory _ => true
  | file _ => false

def child? (name : String) : FileTree → Option FileTree
  | directory entries => entries.lookup name
  | file _ => none

/-! ## Changing a tree -/

def setEntry (name : String) (t : FileTree) :
    List (String × FileTree) → List (String × FileTree)
  | [] => [(name, t)]
  | (n, s) :: rest => if n = name then (n, t) :: rest else (n, s) :: setEntry name t rest

/-- Put a file at a path of names, making the directories on the way. -/
def insert (bytes : ByteArray) : List String → FileTree → FileTree
  | [], _ => file bytes
  | name :: path, directory entries =>
    directory (setEntry name (insert bytes path ((entries.lookup name).getD default)) entries)
  | name :: path, file _ => directory [(name, insert bytes path default)]

/-- Make sure that there is a directory at a path of names. -/
def makeDirectory : List String → FileTree → FileTree
  | [], directory entries => directory entries
  | [], file _ => default
  | name :: path, directory entries =>
    directory (setEntry name (makeDirectory path ((entries.lookup name).getD default)) entries)
  | name :: path, file _ => directory [(name, makeDirectory path default)]

/-! ## Finding -/

/-- A place in a tree: its names from the top down, and what stands there. -/
structure Place where
  names : List String
  tree : FileTree

/-- A place with those above it, from its parent up to the top. -/
structure Trail where
  above : List Place
  place : Place

namespace Trail

/-- The trail to the parent. The top is its own parent. -/
def up (trail : Trail) : Trail :=
  match trail.above with
  | [] => trail
  | parent :: above => ⟨above, parent⟩

def down (trail : Trail) (name : String) (tree : FileTree) : Trail :=
  ⟨trail.place :: trail.above, ⟨trail.place.names ++ [name], tree⟩⟩

/-- Go along one segment of a path. -/
def step (trail : Trail) (segment : String) : Except Error Trail :=
  match trail.place.tree with
  | file _ => .error .notDirectory
  | directory entries =>
    if Path.isVoid segment then .ok trail
    else if segment = ".." then .ok trail.up
    else match entries.lookup segment with
      | none => .error .notFound
      | some tree => .ok (trail.down segment tree)

end Trail

/-- What an absolute path leads to. A tree has no working directory, so that a relative path leads
nowhere. -/
def find (t : FileTree) (path : String) : Except Error Place :=
  if Path.isAbsolute path then
    ((Path.segments path).foldlM Trail.step ⟨[], ⟨[], t⟩⟩).map Trail.place
  else .error .notFound

def isFileAt (t : FileTree) (path : String) : Bool :=
  match t.find path with
  | .ok ⟨_, file _⟩ => true
  | _ => false

def text? (bytes : ByteArray) : Option String := String.fromUTF8? bytes

/-- The text of a file. -/
def textOf (bytes : ByteArray) : Except Error String :=
  match text? bytes with
  | some text => .ok text
  | none => .error .notText

/-- The text of the file that an absolute path leads to. -/
def read (t : FileTree) (path : String) : Except Error String := do
  match (← t.find path).tree with
  | directory _ => .error .isDirectory
  | file bytes => textOf bytes

end FileTree

end LayoutLint
