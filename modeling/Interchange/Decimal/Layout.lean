import Interchange.Decimal.Shortest

/-!
# Layout of decimals

Which digits stand for a number and how they are written are two questions. This module answers
the second: a `Layout` holds a format's decisions, and `Layout.write` follows them.
-/

namespace Interchange.Decimal

/-- The decisions of a number format. -/
structure Layout where
  /-- Positional notation is used when the exponent of the leading digit is at least this, -/
  plainFrom : Int
  /-- and below this. -/
  plainBelow : Int
  /-- A value without fraction ends in a point and a zero in positional notation. -/
  pointZero : Bool
  /-- A positive exponent carries a plus sign. -/
  plusSign : Bool
  /-- Which of two equally near shortest decimals is written. -/
  tie : Tie
  /-- Which neighbours of a value on a grid may be written for it. -/
  candidates : Candidates
  nan : String
  positiveInfinity : String
  negativeInfinity : String

namespace Layout

/-- The digits of a natural in base ten. -/
def digitChars (n : Nat) : List Char := Nat.toDigits 10 n

/-- Positional notation for digits whose first has the given exponent. -/
def positional (layout : Layout) (digits : List Char) (exponent : Int) : List Char :=
  if exponent < 0 then
    ['0', '.'] ++ List.replicate (-exponent - 1).toNat '0' ++ digits
  else
    let whole := exponent.toNat + 1
    let missing := whole - digits.length
    let fraction := digits.drop whole
    digits.take whole ++ List.replicate missing '0' ++
      (if fraction.isEmpty then (if layout.pointZero then ['.', '0'] else []) else '.' :: fraction)

/-- Exponent notation for digits whose first has the given exponent. -/
def scientific (layout : Layout) (digits : List Char) (exponent : Int) : List Char :=
  let tail := digits.drop 1
  digits.take 1 ++ (if tail.isEmpty then [] else '.' :: tail) ++ ['e'] ++
    (if exponent < 0 then ['-'] else if layout.plusSign then ['+'] else []) ++
    digitChars exponent.natAbs

/-- The text of a decimal. -/
def writeChars (layout : Layout) (d : Decimal) : List Char :=
  let d := d.strip
  let digits := digitChars d.digits
  let exponent := (digits.length : Int) + d.exponent - 1
  (if d.negative then ['-'] else []) ++
    (if layout.plainFrom ≤ exponent ∧ exponent < layout.plainBelow then
      layout.positional digits exponent
    else layout.scientific digits exponent)

/-- The text of a binary64 number: its shortest decimal, laid out. -/
def write (layout : Layout) : Binary64 → String
  | .nan => layout.nan
  | .infinity negative => if negative then layout.negativeInfinity else layout.positiveInfinity
  | .finite negative rank =>
    String.ofList (layout.writeChars (shortest layout.tie layout.candidates negative rank))

end Layout
end Interchange.Decimal
