import Interchange.Fault
import Interchange.Store.Kind

/-!
# Running sums

A sum is exact as long as only integers are added. The first float makes it a float, and from
then on every addition is rounded.
-/

namespace Interchange

inductive RunningSum where
  | exact (total : Int)
  | rounded (total : Binary64)
deriving DecidableEq, Repr

namespace RunningSum

/-- The sum of nothing. -/
def zero : RunningSum := exact 0

instance : Inhabited RunningSum := ⟨zero⟩

def isRounded : RunningSum → Bool
  | exact _ => false
  | rounded _ => true

/-- The nearest float. -/
def toBinary64 : RunningSum → Binary64
  | exact total => Binary64.ofInt total
  | rounded total => total

/-- The sum as a value: an integer until a float was added. -/
def value : RunningSum → Value
  | exact total => .int total
  | rounded total => .float total

def addFloat (sum : RunningSum) (x : Binary64) : RunningSum := rounded (sum.toBinary64.add x)

def addInt : RunningSum → Int → RunningSum
  | exact total, i => exact (total + i)
  | rounded total, i => rounded (total.add (Binary64.ofInt i))

/-- Adds an integer or a float; nothing adds nothing. -/
def add (store : Store) (sum : RunningSum) : Value → Except Mismatch RunningSum
  | .nothing => .ok sum
  | .int i => .ok (sum.addInt i)
  | .float x => .ok (sum.addFloat x)
  | v => .error ⟨store.typeName v, "int or float or None"⟩

/-- Adds values from left to right. -/
def addAll (store : Store) (sum : RunningSum) (items : List Value) :
    Except Mismatch RunningSum :=
  items.foldlM (add store) sum

end RunningSum
end Interchange
