import Interchange.Json.Lexeme

/-!
# Counts

How a receiver of counts takes a number. An integer of at most 64 bits is exact. Any other number
is a float made of its first digits, as many as 64 bits hold, and a power of ten, by products and
quotients that are rounded one after the other; so the float may miss the nearest one. A number
past the greatest float is refused.
-/

namespace Interchange.Json

/-- A number as a receiver of counts takes it. -/
inductive Count where
  | natural (value : Nat)
  | negative (value : Int)
  | float (value : Binary64)
deriving DecidableEq, Repr

namespace Count

/-- The greatest integer of 64 bits without a sign. -/
def greatest : Nat := 18446744073709551615

/-- The greatest exponent that is read. -/
def greatestExponent : Nat := 2147483647

/-- The greatest power of ten that a float holds. -/
def greatestPower : Nat := 308

/-- Digits taken into an integer as long as it stays in 64 bits, and the number of those left. -/
def takeDigits : Nat → List Char → Nat × Nat
  | n, [] => (n, 0)
  | n, c :: rest =>
    let next := 10 * n + (c.toNat - '0'.toNat)
    if greatest < next then (n, rest.length + 1) else takeDigits next rest

/-- The exponent of digits, or how many of them are left when it grows too large. -/
def exponentOf : Nat → List Char → Except Nat Nat
  | n, [] => .ok n
  | n, c :: rest =>
    let next := 10 * n + (c.toNat - '0'.toNat)
    if greatestExponent < next then .error rest.length else exponentOf next rest

/-- The float nearest to a power of ten. -/
def tenPower (n : Nat) : Binary64 := .ofRatio false (tenPow n) 1

/-- A float times a power of ten, if that is in range. A quotient of three greatest powers is zero,
so the fuel never runs out when it starts at four. -/
def scale : Nat → Binary64 → Int → Option Binary64
  | 0, x, _ => some x
  | fuel + 1, x, exponent =>
    if exponent.natAbs ≤ greatestPower then
      if 0 ≤ exponent then
        let product := x.mul (tenPower exponent.natAbs)
        if product.isFinite then some product else none
      else some (x.div (tenPower exponent.natAbs))
    else if x.isZero then some x
    else if 0 ≤ exponent then none
    else scale fuel (x.div (tenPower greatestPower)) (exponent + greatestPower)

/-- A float with the sign of a numeral. -/
def signed (negative : Bool) (x : Binary64) : Count :=
  .float (if negative then (match x with | .finite _ rank => .finite true rank | x => x) else x)

end Count

/-- A numeral as a receiver of counts takes it. The error tells how many characters of the numeral
had not been looked at when it turned out to be out of range. -/
def Numeral.count (n : Numeral) : Except Nat Count :=
  let (whole, left) := Count.takeDigits 0 n.whole
  let plain := left = 0 ∧ n.fraction.isNone ∧ n.exponent.isNone
  if plain then
    if ¬ n.negative then .ok (.natural whole)
    else if whole = 0 ∨ Binary64.signBit < whole then .ok (Count.signed true (Binary64.ofInt whole))
    else .ok (.negative (-(whole : Int)))
  else
    let fraction := n.fraction.getD []
    let (significand, unread) := Count.takeDigits whole fraction
    let start : Int := left - (fraction.length - unread : Nat)
    let scaled (exponent : Int) : Except Nat Count :=
      match Count.scale 4 (Binary64.ofInt significand) exponent with
      | some x => .ok (Count.signed n.negative x)
      | none => .error 0
    match n.exponent with
    | none => scaled start
    | some (negative, digits) =>
      match Count.exponentOf 0 digits with
      | .ok exponent => scaled (if negative then start - exponent else start + exponent)
      | .error left =>
        if significand ≠ 0 ∧ ¬ negative then .error left
        else .ok (Count.signed n.negative Binary64.zero)

end Interchange.Json
