import Interchange.Binary64
import Interchange.Instant

/-!
# Values

A dynamic value is a scalar or a reference to a cell of a store. Scalars are compared by what they
are; a container, a function or an extension is a reference, and its identity is that reference.
-/

namespace Interchange

/-- The place of a cell in a store. -/
structure Ref where
  index : Nat
deriving DecidableEq, Repr

inductive Value where
  | nothing
  | bool (value : Bool)
  | int (value : Int)
  | float (value : Binary64)
  | string (value : String)
  | bytes (value : List UInt8)
  | time (value : Instant)
  | object (ref : Ref)
deriving DecidableEq, Repr

namespace Value

instance : Inhabited Value := ⟨nothing⟩

/-- What makes two references the same object; scalars have none. -/
def identity? : Value → Option Ref
  | object ref => some ref
  | _ => none

theorem identity?_eq_some {v : Value} {ref : Ref} : v.identity? = some ref ↔ v = object ref := by
  cases v <;> simp [identity?]

def isNothing : Value → Bool
  | nothing => true
  | _ => false

def text? : Value → Option String
  | string s => some s
  | _ => none

end Value
end Interchange
