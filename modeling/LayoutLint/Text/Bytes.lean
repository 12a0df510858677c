/-! # Byte slices

Positions in a text count the bytes of its UTF-8 form. A slice exists only when both of its
ends fall between two characters.
-/

namespace LayoutLint.Text

/-- The number of bytes that the characters take. -/
def byteLength : List Char → Nat
  | [] => 0
  | c :: cs => c.utf8Size + byteLength cs

/-- The characters after the first `n` bytes. -/
def dropBytes : Nat → List Char → Option (List Char)
  | 0, cs => some cs
  | _ + 1, [] => none
  | n + 1, c :: cs =>
    if c.utf8Size ≤ n + 1 then dropBytes (n + 1 - c.utf8Size) cs else none

def takeBytes : Nat → List Char → Option (List Char)
  | 0, _ => some []
  | _ + 1, [] => none
  | n + 1, c :: cs =>
    if c.utf8Size ≤ n + 1 then (takeBytes (n + 1 - c.utf8Size) cs).map (c :: ·) else none

/-- The characters from byte `start` up to byte `stop`. -/
def slice? (cs : List Char) (start stop : Nat) : Option (List Char) :=
  if start ≤ stop then (dropBytes start cs).bind (takeBytes (stop - start)) else none

def slice (cs : List Char) (start stop : Nat) : List Char := (slice? cs start stop).getD []

/-- Dropping bytes leaves the end of the text. -/
theorem exists_append_of_dropBytes {n : Nat} {cs ds : List Char} (h : dropBytes n cs = some ds) :
    ∃ pre, cs = pre ++ ds ∧ byteLength pre = n := by
  induction cs generalizing n with
  | nil =>
    cases n with
    | zero => exact ⟨[], by simpa [dropBytes] using h, rfl⟩
    | succ n => simp [dropBytes] at h
  | cons c cs ih =>
    cases n with
    | zero => exact ⟨[], by simpa [dropBytes] using h, rfl⟩
    | succ n =>
      rw [dropBytes] at h
      split at h
      case isTrue hle =>
        obtain ⟨pre, rfl, hp⟩ := ih h
        refine ⟨c :: pre, rfl, ?_⟩
        rw [byteLength]
        omega
      case isFalse => cases h

end LayoutLint.Text
