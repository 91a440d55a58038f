/-!
# Hexadecimal text

Numbers and byte sequences in lower-case hexadecimal digits. A byte has two digits, the high one
first, and reading two digits gives the byte back (`hexBytes_hexOfBytes`).
-/

namespace Interchange.Text

/-- A lower-case hexadecimal digit. -/
def hexDigit (n : Nat) : Char := Nat.digitChar (n % 16)

/-- The value of a hexadecimal digit of either case. -/
def hexValue? (c : Char) : Option Nat :=
  if '0' ≤ c ∧ c ≤ '9' then some (c.toNat - '0'.toNat)
  else if 'a' ≤ c ∧ c ≤ 'f' then some (c.toNat - 'a'.toNat + 10)
  else if 'A' ≤ c ∧ c ≤ 'F' then some (c.toNat - 'A'.toNat + 10)
  else none

/-- The value of a hexadecimal digit; other characters count as zero. -/
def hexDigitValue (c : Char) : Nat := (hexValue? c).getD 0

/-- The number of a text of digits. -/
def hexNumber (digits : List Char) : Nat :=
  digits.foldl (fun n c => 16 * n + hexDigitValue c) 0

/-- A number in as many digits as wanted, the lowest ones. -/
def hexOfNumber : (width n : Nat) → List Char
  | 0, _ => []
  | width + 1, n => hexOfNumber width (n / 16) ++ [hexDigit n]

/-- Two digits for a byte. -/
def hexByte (b : UInt8) : List Char := [hexDigit (b.toNat / 16), hexDigit b.toNat]

/-- Two digits for each byte. -/
def hexOfBytes (bytes : List UInt8) : String := String.ofList (bytes.flatMap hexByte)

/-- The bytes of a text of digits, two for each; a lone last digit is left out. -/
def hexBytes : List Char → List UInt8
  | high :: low :: rest =>
    UInt8.ofNat (16 * hexDigitValue high + hexDigitValue low) :: hexBytes rest
  | _ => []

theorem hexValue?_hexDigit (n : Nat) : hexValue? (hexDigit n) = some (n % 16) := by
  have table : ∀ m : Fin 16, hexValue? (Nat.digitChar m.val) = some m.val := by decide
  exact table ⟨n % 16, Nat.mod_lt n (by decide)⟩

theorem hexDigitValue_hexDigit (n : Nat) : hexDigitValue (hexDigit n) = n % 16 := by
  rw [hexDigitValue, hexValue?_hexDigit]
  rfl

theorem hexBytes_hexByte_append (b : UInt8) (rest : List Char) :
    hexBytes (hexByte b ++ rest) = b :: hexBytes rest := by
  have bound : b.toNat < 256 := b.toNat_lt
  have value : 16 * (b.toNat / 16 % 16) + b.toNat % 16 = b.toNat := by omega
  simp [hexByte, hexBytes, hexDigitValue_hexDigit, value]

/-- Reading the digits of bytes gives the bytes. -/
theorem hexBytes_hexOfBytes (bytes : List UInt8) :
    hexBytes (hexOfBytes bytes).toList = bytes := by
  rw [hexOfBytes, String.toList_ofList]
  induction bytes with
  | nil => rfl
  | cons b rest ih => rw [List.flatMap_cons, hexBytes_hexByte_append, ih]

end Interchange.Text
