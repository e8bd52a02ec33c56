import MiniPascal.Alphabet.Ranges

/-!
# Blanks

The characters with the White_Space property of the Unicode standard. They separate tokens and mean
nothing else.
-/

namespace MiniPascal.Alphabet

/-- The code points with the White_Space property, in increasing order. -/
def blankRanges : Ranges :=
  [(0x9, 0xD), (0x20, 0x20), (0x85, 0x85), (0xA0, 0xA0), (0x1680, 0x1680), (0x2000, 0x200A),
   (0x2028, 0x2029), (0x202F, 0x202F), (0x205F, 0x205F), (0x3000, 0x3000)]

/-- A character that only separates tokens. -/
def isBlank (c : Char) : Bool := blankRanges.contains c.toNat

end MiniPascal.Alphabet
