import Interchange.Text.Hex

/-!
# Byte literals

Bytes between `b"` and `"`: printable ASCII as it is, with escapes for quotes and the backslash,
and two hexadecimal digits for the rest.
-/

namespace Interchange.Text

/-- The written form of one byte. -/
def literalByte (b : UInt8) : List Char :=
  let c := Char.ofNat b.toNat
  if c = '\t' then ['\\', 't']
  else if c = '\r' then ['\\', 'r']
  else if c = '\n' then ['\\', 'n']
  else if c = '\'' then ['\\', '\'']
  else if c = '"' then ['\\', '"']
  else if c = '\\' then ['\\', '\\']
  else if 0x20 ≤ b.toNat ∧ b.toNat ≤ 0x7E then [c]
  else ['\\', 'x'] ++ hexByte b

/-- The literal of a byte sequence. -/
def byteLiteral (bytes : List UInt8) : String :=
  String.ofList (['b', '"'] ++ bytes.flatMap literalByte ++ ['"'])

end Interchange.Text
