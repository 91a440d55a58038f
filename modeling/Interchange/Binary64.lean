/-!
# Binary64 numbers, exactly

A binary64 number is NaN, an infinity, or a finite value. The finite magnitudes are counted from
zero upward: the *rank* of a magnitude is its place in that order, and the magnitude itself is a
whole number of *units*, the unit being the least positive value, `2 ^ -1074`. All arithmetic is
done on exact integers of units and rounded once, to the nearest value, ties to the even one.
NaN has one form: payloads carry no meaning here.
-/

namespace Interchange

/-- A power of two. -/
abbrev twoPow (n : Nat) : Nat := Nat.pow 2 n

/-- A power of ten. -/
abbrev tenPow (n : Nat) : Nat := Nat.pow 10 n

/-- The number of finite magnitudes; a rank at or above it stands for infinity. -/
abbrev infiniteRank : Nat := 0x7FF0000000000000

inductive Binary64 where
  | nan
  | infinity (negative : Bool)
  | finite (negative : Bool) (rank : Fin infiniteRank)
deriving DecidableEq, Repr

namespace Binary64

/-- The units of one. -/
def unitsPerOne : Nat := twoPow 1074

/-- The number of ranks with one gap to the next: `2 ^ 52`. -/
abbrev binadeSize : Nat := 0x10000000000000

/-- The bit of the sign: `2 ^ 63`. -/
abbrev signBit : Nat := 0x8000000000000000

/-- The magnitude of a given rank, in units. The two agree over the first two binades; from there
on the gap between neighbours doubles with every binade. -/
def unitsOfRank (rank : Nat) : Nat :=
  if rank < 2 * binadeSize then rank
  else (binadeSize + rank % binadeSize) * twoPow (rank / binadeSize - 1)

/-- The quotient of two naturals to the nearest whole number, ties to the even one. -/
def roundDiv (num den : Nat) : Nat :=
  let quotient := num / den
  let twice := 2 * (num % den)
  if twice < den then quotient
  else if den < twice then quotient + 1
  else quotient + quotient % 2

/-- The rank nearest to `num / den` units, ties to the even rank. -/
def rankOfUnits (num den : Nat) : Nat :=
  let binade := (num / den).log2 - 52
  binade * binadeSize + roundDiv num (den * twoPow binade)

/-- The value with a given rank; a rank past the finite ones is infinite. -/
def ofRank (negative : Bool) (rank : Nat) : Binary64 :=
  if h : rank < infiniteRank then .finite negative ⟨rank, h⟩ else .infinity negative

/-- The value nearest to `num / den`, with the given sign. -/
def ofRatio (negative : Bool) (num den : Nat) : Binary64 :=
  ofRank negative (rankOfUnits (num * unitsPerOne) den)

def zero : Binary64 := .finite false ⟨0, by decide⟩

instance : Inhabited Binary64 := ⟨zero⟩

/-- The value nearest to an integer, infinite when the integer is too large. -/
def ofInt (i : Int) : Binary64 := ofRatio (decide (i < 0)) i.natAbs 1

/-- A finite value in units, with its sign. -/
def signedUnits (negative : Bool) (rank : Nat) : Int :=
  if negative then -(unitsOfRank rank : Int) else unitsOfRank rank

def isNaN : Binary64 → Bool
  | nan => true
  | _ => false

def isFinite : Binary64 → Bool
  | finite _ _ => true
  | _ => false

/-- Numeric equality: NaN equals nothing, and the two zeros are equal. -/
def numEq : Binary64 → Binary64 → Bool
  | infinity s, infinity t => s == t
  | finite s a, finite t b => a == b && (s == t || a.val == 0)
  | _, _ => false

/-- Is the value zero, of either sign? -/
def isZero : Binary64 → Bool
  | finite _ rank => rank.val == 0
  | _ => false

/-- The integer that a finite value without fraction stands for. -/
def integer? : Binary64 → Option Int
  | finite s rank =>
    let units := signedUnits s rank
    if units % (unitsPerOne : Int) = 0 then some (units / (unitsPerOne : Int)) else none
  | _ => none

/-- The sum, rounded once. Opposite infinities have no sum; an exact zero is positive unless both
terms are negative zeros. -/
def add : Binary64 → Binary64 → Binary64
  | nan, _ => nan
  | _, nan => nan
  | infinity s, infinity t => if s = t then infinity s else nan
  | infinity s, finite _ _ => infinity s
  | finite _ _, infinity t => infinity t
  | finite s a, finite t b =>
    let sum := signedUnits s a + signedUnits t b
    if sum = 0 then ofRank (s && t) 0 else ofRank (decide (sum < 0)) (rankOfUnits sum.natAbs 1)

/-- The product, rounded once. -/
def mul : Binary64 → Binary64 → Binary64
  | nan, _ => nan
  | _, nan => nan
  | infinity s, infinity t => infinity (s != t)
  | infinity s, finite t b => if b.val = 0 then nan else infinity (s != t)
  | finite s a, infinity t => if a.val = 0 then nan else infinity (s != t)
  | finite s a, finite t b =>
    ofRank (s != t) (rankOfUnits (unitsOfRank a * unitsOfRank b) unitsPerOne)

/-- The quotient, rounded once. -/
def div : Binary64 → Binary64 → Binary64
  | nan, _ => nan
  | _, nan => nan
  | infinity _, infinity _ => nan
  | infinity s, finite t _ => infinity (s != t)
  | finite s _, infinity t => ofRank (s != t) 0
  | finite s a, finite t b =>
    if b.val = 0 then if a.val = 0 then nan else infinity (s != t)
    else ofRank (s != t) (rankOfUnits (unitsOfRank a * unitsPerOne) (unitsOfRank b))

/-- The least and the greatest signed 64-bit integer. -/
abbrev minInt64 : Int := -9223372036854775808
abbrev maxInt64 : Int := 9223372036854775807

/-- Does an integer fit 64 signed bits? -/
def fitsInt64 (i : Int) : Bool := decide (minInt64 ≤ i) && decide (i ≤ maxInt64)

/-- The integer part as a signed 64-bit number: the fraction is dropped, what lies outside the
range becomes the nearest bound, and NaN becomes zero. -/
def toInt64 : Binary64 → Int
  | nan => 0
  | infinity negative => if negative then minInt64 else maxInt64
  | finite s rank => max minInt64 (min maxInt64 (Int.tdiv (signedUnits s rank) unitsPerOne))

/-- The bits of the interchange format; NaN has one pattern. -/
def toBits : Binary64 → Nat
  | nan => 0x7FF8000000000000
  | infinity s => (if s then signBit else 0) + infiniteRank
  | finite s rank => (if s then signBit else 0) + rank

def ofBits (bits : Nat) : Binary64 :=
  let negative := bits / signBit % 2 == 1
  let rank := bits % signBit
  if infiniteRank < rank then .nan else ofRank negative rank

/-- The value of a binary32 bit pattern, which binary64 holds exactly. -/
def ofBits32 (bits : Nat) : Binary64 :=
  let negative := bits / twoPow 31 % 2 == 1
  let exponent := bits / twoPow 23 % 256
  let fraction := bits % twoPow 23
  if exponent = 255 then if fraction = 0 then .infinity negative else .nan
  else if exponent = 0 then ofRatio negative fraction (twoPow 149)
  else ofRatio negative ((twoPow 23 + fraction) * twoPow (exponent - 1)) (twoPow 149)

end Binary64
end Interchange
