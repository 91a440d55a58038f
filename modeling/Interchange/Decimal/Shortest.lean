import Interchange.Decimal

/-!
# The shortest decimal that reads back

For one digit, two digits and so on, the two neighbours of a value on the decimal grid with that
many digits are tried, or only the nearer of them, as the caller says. The first grid on which one
reads back to the value decides; of two that do, the nearer is taken, and a tie goes as the caller
says. Should no grid of up to seventeen digits do, the exact decimal of the value is taken.
-/

namespace Interchange.Decimal

/-- Which of two equally near decimals is taken. -/
inductive Tie where
  | toEven
  | up
deriving DecidableEq, Repr

/-- The least `k` with `units < 10 ^ k * 2 ^ 1074`, for a positive number of units: an estimate
from the binary length that is at most a few steps too small, corrected upward. -/
def scaleOf (units : Nat) : Int :=
  let estimate : Int := ((units.log2 : Int) - 1074) * 30103 / 100000 - 2
  climb 8 estimate
where
  below (k : Int) : Bool :=
    if 0 ≤ k then decide (units < tenPow k.toNat * Binary64.unitsPerOne)
    else decide (units * tenPow (-k).toNat < Binary64.unitsPerOne)
  climb : Nat → Int → Int
    | 0, k => k
    | fuel + 1, k => if below k then k else climb fuel (k + 1)

/-- The value in steps of `10 ^ grid`, as a fraction of two naturals. -/
def onGrid (units : Nat) (grid : Int) : Nat × Nat :=
  if 0 ≤ grid then (units, tenPow grid.toNat * Binary64.unitsPerOne)
  else (units * tenPow (-grid).toNat, Binary64.unitsPerOne)

/-- Which neighbours of a value on a grid may stand for it. -/
inductive Candidates where
  /-- Either neighbour may; the nearer is preferred. -/
  | both
  /-- Only the nearer neighbour may, so that the digits are those of the value, rounded. -/
  | nearer
deriving DecidableEq, Repr

/-- The value's two neighbours on the grid `10 ^ grid`, the nearer first. -/
def neighbours (tie : Tie) (units : Nat) (grid : Int) : Nat × Nat :=
  let (num, den) := onGrid units grid
  let lower := num / den
  let twice := 2 * (num % den)
  let upward : Bool :=
    if twice < den then false
    else if den < twice then true
    else match tie with
      | .up => true
      | .toEven => lower % 2 = 1
  if upward then (lower + 1, lower) else (lower, lower + 1)

/-- The neighbour on the grid `10 ^ grid` that reads back to the magnitude of this rank. -/
def neighbour? (tie : Tie) (candidates : Candidates) (rank : Nat) (grid : Int) : Option Nat :=
  let (near, far) := neighbours tie (Binary64.unitsOfRank rank) grid
  let readsBack (digits : Nat) : Bool :=
    toBinary64 ⟨false, digits, grid⟩ == Binary64.ofRank false rank
  if readsBack near then some near
  else if candidates = .both ∧ readsBack far then some far
  else none

/-- The shortest decimal that reads back to the finite value of this sign and rank. -/
def shortest (tie : Tie) (candidates : Candidates) (negative : Bool) (rank : Nat) : Decimal :=
  if rank = 0 then ⟨negative, 0, 0⟩
  else
    let scale := scaleOf (Binary64.unitsOfRank rank)
    let found := (List.range 17).findSome? fun n : Nat =>
      let grid : Int := scale - (n + 1 : Nat)
      (neighbour? tie candidates rank grid).map fun digits => (⟨negative, digits, grid⟩ : Decimal)
    (found.getD ⟨negative, Binary64.unitsOfRank rank * Nat.pow 5 1074, -1074⟩).strip

end Interchange.Decimal
