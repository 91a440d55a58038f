/-!
# UTF-8

Sizes and bytes of texts, and the reading of arbitrary bytes as text: a longest part that could
have begun a character but does not is replaced by U+FFFD as a whole, any other stray byte alone.
-/

namespace Interchange.Text

/-- The number of bytes that a list of characters takes. -/
def byteCount (cs : List Char) : Nat := cs.foldr (fun c bytes => c.utf8Size + bytes) 0

/-- The bytes of a text. -/
def utf8 (s : String) : List UInt8 := s.toUTF8.data.toList

/-- Is the byte in the closed range? -/
def byteIn (low high : Nat) (b : UInt8) : Bool := decide (low ≤ b.toNat) && decide (b.toNat ≤ high)

/-- For a byte that begins a longer character: the ranges of the bytes that must follow, and the
bits of its own. -/
def leadByte? (b : UInt8) : Option (List (Nat × Nat) × Nat) :=
  let next := (0x80, 0xBF)
  let n := b.toNat
  if 0xC2 ≤ n ∧ n ≤ 0xDF then some ([next], n % 32)
  else if n = 0xE0 then some ([(0xA0, 0xBF), next], 0)
  else if n = 0xED then some ([(0x80, 0x9F), next], 13)
  else if 0xE1 ≤ n ∧ n ≤ 0xEF then some ([next, next], n % 16)
  else if n = 0xF0 then some ([(0x90, 0xBF), next, next], 0)
  else if n = 0xF4 then some ([(0x80, 0x8F), next, next], 4)
  else if 0xF1 ≤ n ∧ n ≤ 0xF3 then some ([next, next, next], n % 8)
  else none

/-- The following bytes of a character, as far as they are in range: the bits gathered and the
rest, with a flag that says whether all were there. -/
def takeFollowing : List (Nat × Nat) → Nat → List UInt8 → Bool × Nat × List UInt8
  | [], bits, rest => (true, bits, rest)
  | _ :: _, bits, [] => (false, bits, [])
  | (low, high) :: ranges, bits, b :: rest =>
    if byteIn low high b then takeFollowing ranges (bits * 64 + b.toNat % 64) rest
    else (false, bits, b :: rest)

/-- The characters of a byte sequence, with U+FFFD for what is no character. The fuel is the
number of bytes: each step takes at least one. -/
def decodeLossyChars : Nat → List UInt8 → List Char
  | 0, _ => []
  | _, [] => []
  | fuel + 1, b :: rest =>
    if b.toNat < 0x80 then Char.ofNat b.toNat :: decodeLossyChars fuel rest
    else match leadByte? b with
      | none => '\uFFFD' :: decodeLossyChars fuel rest
      | some (ranges, bits) =>
        match takeFollowing ranges bits rest with
        | (true, code, rest) => Char.ofNat code :: decodeLossyChars fuel rest
        | (false, _, rest) => '\uFFFD' :: decodeLossyChars fuel rest

/-- The text of a byte sequence, with U+FFFD for what is no character. -/
def decodeLossy (bytes : List UInt8) : String :=
  String.ofList (decodeLossyChars bytes.length bytes)

end Interchange.Text
