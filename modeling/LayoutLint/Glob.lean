/-! # Glob patterns

Patterns over whole paths. `?` stands for one character, `*` for any text, and both may take a
`/`. A component `**` stands for any number of components. `[...]` is a set of characters and
`[!...]` its complement.
-/

namespace LayoutLint.Glob

inductive Piece where
  | char (c : Char)
  | anyChar
  | anyText
  /-- Any number of whole components. -/
  | anyComponents
  | within (ranges : List (Char × Char))
  | except (ranges : List (Char × Char))
  deriving DecidableEq, Repr

inductive Fault where
  | wildcards
  | recursiveWildcards
  | range
  deriving DecidableEq, Repr

def Fault.message : Fault → String
  | wildcards => "wildcards are either regular \x60*\x60 or recursive \x60**\x60"
  | recursiveWildcards => "recursive wildcards must form a single path component"
  | range => "invalid range pattern"

/-- What is wrong with a pattern, and near which of its characters. -/
structure Error where
  position : Nat
  fault : Fault
  deriving DecidableEq, Repr

def Error.message (e : Error) : String :=
  s!"Pattern syntax error near position {e.position}: {e.fault.message}"

/-! ## Reading -/

/-- The ranges of a set; a `-` between two characters makes a range of them. -/
def ranges : List Char → List (Char × Char)
  | a :: '-' :: b :: rest => (a, b) :: ranges rest
  | a :: rest => (a, a) :: ranges rest
  | [] => []

/-- The characters up to the closing bracket, which is not the first of them, and the text
after it. -/
def setBody? : List Char → Option (List Char × List Char)
  | [] => none
  | c :: rest =>
    match rest.dropWhile (· ≠ ']') with
    | [] => none
    | _ :: after => some (c :: rest.takeWhile (· ≠ ']'), after)

/-- The set after an opening bracket. -/
def set? : List Char → Option (Piece × List Char)
  | '!' :: rest => (setBody? rest).map fun (body, after) => (.except (ranges body), after)
  | text => (setBody? text).map fun (body, after) => (.within (ranges body), after)

theorem length_setBody? {text body after : List Char} (h : setBody? text = some (body, after)) :
    after.length < text.length := by
  cases text with
  | nil => simp [setBody?] at h
  | cons c rest =>
    have hle := (List.dropWhile_sublist (l := rest) (fun x => decide (x ≠ ']'))).length_le
    simp only [setBody?] at h
    split at h
    · simp at h
    · rename_i heq
      simp only [Option.some.injEq, Prod.mk.injEq] at h
      rw [heq] at hle
      simp only [List.length_cons] at hle ⊢
      rw [← h.2]
      omega

theorem length_set? {text : List Char} {p : Piece} {after : List Char}
    (h : set? text = some (p, after)) : after.length < text.length := by
  unfold set? at h
  split at h
  · obtain ⟨⟨body, rest⟩, hb, he⟩ := Option.map_eq_some_iff.1 h
    have := length_setBody? hb
    simp only [Prod.mk.injEq] at he
    rw [← he.2]
    simp only [List.length_cons]
    omega
  · obtain ⟨⟨body, rest⟩, hb, he⟩ := Option.map_eq_some_iff.1 h
    have := length_setBody? hb
    simp only [Prod.mk.injEq] at he
    rw [← he.2]
    omega

/-- The pieces of a pattern from a position on, after the character `last`. -/
def parseFrom (position : Nat) (last : Option Char) (text : List Char) :
    Except Error (List Piece) :=
  match text with
  | [] => .ok []
  | '?' :: rest => do return .anyChar :: (← parseFrom (position + 1) (some '?') rest)
  | '*' :: '*' :: '*' :: _ => .error ⟨position + 2, .wildcards⟩
  | '*' :: '*' :: rest =>
    if last.all (· = '/') then
      match rest with
      | [] => .ok [.anyComponents]
      | '/' :: rest => do return .anyComponents :: (← parseFrom (position + 3) (some '/') rest)
      | _ :: _ => .error ⟨position + 2, .recursiveWildcards⟩
    else .error ⟨position - 1, .recursiveWildcards⟩
  | '*' :: rest => do return .anyText :: (← parseFrom (position + 1) (some '*') rest)
  | '[' :: rest =>
    match h : set? rest with
    | none => .error ⟨position, .range⟩
    | some (piece, after) => do
      have := length_set? h
      return piece ::
        (← parseFrom (position + 1 + (rest.length - after.length)) (some ']') after)
  | c :: rest => do return .char c :: (← parseFrom (position + 1) (some c) rest)
termination_by text.length

/-! ## Matching -/

def inRanges (ranges : List (Char × Char)) (c : Char) : Bool :=
  ranges.any fun (a, b) => a ≤ c && c ≤ b

/-- Whether some end of the text, the whole of it included, is accepted. -/
def anyEnd (accepts : List Char → Bool) : List Char → Bool
  | [] => accepts []
  | c :: rest => accepts (c :: rest) || anyEnd accepts rest

/-- Whether some end of the text that follows a `/` is accepted. -/
def anyComponentEnd (accepts : List Char → Bool) : List Char → Bool
  | [] => false
  | c :: rest => (c = '/' && accepts rest) || anyComponentEnd accepts rest

/-- Whether the pieces make up the whole text. -/
def matchPieces : List Piece → List Char → Bool
  | [], text => text.isEmpty
  | .anyText :: pieces, text => anyEnd (matchPieces pieces) text
  | .anyComponents :: pieces, text =>
    pieces.isEmpty || matchPieces pieces text || anyComponentEnd (matchPieces pieces) text
  | .char _ :: _, [] => false
  | .anyChar :: _, [] => false
  | .within _ :: _, [] => false
  | .except _ :: _, [] => false
  | .char c :: pieces, d :: text => c = d && matchPieces pieces text
  | .anyChar :: pieces, _ :: text => matchPieces pieces text
  | .within ranges :: pieces, c :: text => inRanges ranges c && matchPieces pieces text
  | .except ranges :: pieces, c :: text => !inRanges ranges c && matchPieces pieces text

end Glob

structure Glob where
  pieces : List Glob.Piece
  deriving DecidableEq, Repr

namespace Glob

def parse (text : String) : Except Error Glob := do
  return ⟨← parseFrom 0 none text.toList⟩

def accepts (g : Glob) (path : String) : Bool := matchPieces g.pieces path.toList

end LayoutLint.Glob
