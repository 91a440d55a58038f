import Interchange.Text.Quoted

/-!
# Blanks

The characters that are White_Space, and texts without the blanks around them.
-/

namespace Interchange.Text

def blankRanges : List (Nat × Nat) :=
  [(0x9, 0xD), (0x20, 0x20), (0x85, 0x85), (0xA0, 0xA0), (0x1680, 0x1680), (0x2000, 0x200A),
   (0x2028, 0x2029), (0x202F, 0x202F), (0x205F, 0x205F), (0x3000, 0x3000)]

def isBlank (c : Char) : Bool := inRanges blankRanges c.toNat

/-- Characters without the blanks around them, for a class of blanks. -/
def trimmed (isBlank : Char → Bool) (chars : List Char) : List Char :=
  ((chars.dropWhile isBlank).reverse.dropWhile isBlank).reverse

end Interchange.Text
