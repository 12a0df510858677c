/-! # Paths

Paths are texts with `/` between their segments. They are compared by components: empty
segments and inner `.` segments do not count, `..` does, and a root stands for itself.
-/

namespace LayoutLint.Path

inductive Component where
  | root
  | current
  | parent
  | normal (name : String)
  deriving DecidableEq, Repr

namespace Component

def rank : Component → Nat
  | root => 0
  | current => 1
  | parent => 2
  | normal _ => 3

/-- A root comes first, then `.`, then `..`, then names in the order of their characters. -/
def compare : Component → Component → Ordering
  | normal a, normal b => Ord.compare a b
  | a, b => Ord.compare a.rank b.rank

end Component

def segments (path : String) : List String := (path.toList.splitOn '/').map String.ofList

def isAbsolute (path : String) : Bool := path.toList.head? == some '/'

/-- The segment adds nothing to the path before it. -/
def isVoid (segment : String) : Bool := segment == "" || segment == "."

def bodyComponent (segment : String) : Component :=
  if segment == ".." then .parent else .normal segment

/-- The components of segments that do not start the path. -/
def bodyComponents (segments : List String) : List Component :=
  (segments.filter (!isVoid ·)).map bodyComponent

def components (path : String) : List Component :=
  match segments path with
  | [] => []
  | first :: rest =>
    if isAbsolute path then .root :: bodyComponents rest
    else if first == "." then .current :: bodyComponents rest
    else bodyComponents (first :: rest)

/-- Component by component; a path comes before the paths inside it. -/
def compareComponents : List Component → List Component → Ordering
  | [], [] => .eq
  | [], _ :: _ => .lt
  | _ :: _, [] => .gt
  | a :: as, b :: bs => (a.compare b).then (compareComponents as bs)

def compare (a b : String) : Ordering := compareComponents (components a) (components b)

def fileName? (path : String) : Option String :=
  match (components path).getLast? with
  | some (.normal name) => some name
  | _ => none

def trimVoidStart (segments : List String) : List String := segments.dropWhile isVoid

def trimVoidEnd (segments : List String) : List String :=
  (segments.reverse.dropWhile isVoid).reverse

/-- The segments after the first `n` components, when the path does not start with them. -/
def dropBody : Nat → List String → List String
  | 0, ss => ss
  | _ + 1, [] => []
  | n + 1, s :: ss => if isVoid s then dropBody (n + 1) ss else dropBody n ss

/-- The text of the path after its first `n` components, without void segments at its ends. -/
def dropComponents (path : String) (n : Nat) : String :=
  match segments path with
  | [] => ""
  | first :: rest =>
    let starts := isAbsolute path || first == "."
    match n with
    | 0 =>
      if starts then
        let body := trimVoidEnd rest
        if isAbsolute path && body.isEmpty then "/"
        else "/".intercalate (first :: body)
      else "/".intercalate (trimVoidEnd (first :: rest))
    | n + 1 =>
      let body := if starts then dropBody n rest else dropBody (n + 1) (first :: rest)
      "/".intercalate (trimVoidEnd (trimVoidStart body))

/-- The rest of a path inside `root`. -/
def strip? (path root : String) : Option String :=
  if (components root).isPrefixOf (components path) then
    some (dropComponents path (components root).length)
  else none

/-- The path as seen from `root`: its rest inside `root`, its own name if it is `root`, and
unchanged if it is elsewhere. -/
def relativeTo (path root : String) : String :=
  match strip? path root with
  | none => path
  | some "" => (fileName? path).getD path
  | some rest => rest

/-- A path seen from a directory; an absolute path stays as it is. -/
def join (directory path : String) : String :=
  if isAbsolute path || directory == "" then path
  else if directory.toList.getLast? == some '/' then directory ++ path
  else directory ++ "/" ++ path

/-- The path without its last component. A root has no parent, and an empty path has none. -/
def parent? (path : String) : Option String :=
  match segments path with
  | [] => none
  | first :: rest =>
    if isAbsolute path || first == "." then
      match trimVoidEnd rest with
      | [] => if isAbsolute path then none else some ""
      | s :: ss =>
        let above := trimVoidEnd (s :: ss).dropLast
        if isAbsolute path && above.isEmpty then some "/"
        else some ("/".intercalate (first :: above))
    else
      match trimVoidEnd (first :: rest) with
      | [] => none
      | s :: ss => some ("/".intercalate (trimVoidEnd (s :: ss).dropLast))

/-- The text after the last dot of the file name, if something stands before that dot. -/
def extension? (path : String) : Option String := do
  let name := (← fileName? path).toList.reverse
  let tail := name.takeWhile (· ≠ '.')
  match name.drop tail.length with
  | _ :: _ :: _ => some (String.ofList tail.reverse)
  | _ => none

end LayoutLint.Path
