import Interchange.Binary64

/-!
# Decimals

A decimal is a sign, digits and a power of ten. `Decimal.toBinary64` reads one as the nearest
binary64 number.
-/

namespace Interchange

/-- The number `± digits * 10 ^ exponent`. Zero keeps its sign. -/
structure Decimal where
  negative : Bool
  digits : Nat
  exponent : Int
deriving DecidableEq, Repr

namespace Decimal

/-- The number of decimal digits of a natural; zero has one. -/
def digitCount (n : Nat) : Nat := (Nat.toDigits 10 n).length

/-- The nearest binary64 number. A decimal of at least `10 ^ 311` is infinite and one below
`10 ^ -330` is zero, so that no power beyond those has to be computed. -/
def toBinary64 (d : Decimal) : Binary64 :=
  let scale : Int := digitCount d.digits + d.exponent
  if d.digits = 0 ∨ scale < -330 then .ofRank d.negative 0
  else if 311 < scale then .infinity d.negative
  else if 0 ≤ d.exponent then .ofRatio d.negative (d.digits * tenPow d.exponent.toNat) 1
  else .ofRatio d.negative d.digits (tenPow (-d.exponent).toNat)

/-- Trailing zeros moved from the digits into the exponent; zero gets exponent zero. -/
def strip (d : Decimal) : Decimal :=
  go (digitCount d.digits) d
where
  go : Nat → Decimal → Decimal
    | 0, d => if d.digits = 0 then { d with exponent := 0 } else d
    | fuel + 1, d =>
      if d.digits = 0 then { d with exponent := 0 }
      else if d.digits % 10 = 0 then
        go fuel { d with digits := d.digits / 10, exponent := d.exponent + 1 }
      else d

end Decimal
end Interchange
