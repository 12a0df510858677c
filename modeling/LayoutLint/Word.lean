/-! # Machine words

Offsets, lines and counts are 64-bit words.
-/

namespace LayoutLint.Word

/-- The number of words, two to the power of 64. -/
def count : Nat := 18446744073709551616

end LayoutLint.Word
