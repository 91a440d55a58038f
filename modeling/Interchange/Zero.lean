import Interchange.Coercion
import Interchange.Container.Dict
import Interchange.Container.ValueList
import Interchange.Container.ValueSet

/-!
# What stands for an absent value

Every shape has a plain value that a receiver reads where nothing was given: zero, the empty text,
a new empty container, the start of 1970.
-/

namespace Interchange.Shape

/-- The plain value of a shape. -/
def zero : (shape : Shape) → Op shape.Carrier
  | .bool => return (false : Bool)
  | .int => return (0 : Int)
  | .int64 => return (0 : Int)
  | .float => return Binary64.zero
  | .string => return ("" : String)
  | .bytes => return ([] : List UInt8)
  | .list => Op.alloc (.list [] false)
  | .dict => Dict.alloc
  | .set => ValueSet.alloc
  | .tuple => Op.alloc (.tuple [])
  | .function => Op.alloc (.function { name := "", routine := .constant .nothing })
  | .time => return (⟨0, 0⟩ : Instant)
  | .value => return Value.nothing
  | .intOrFloat => return Binary64.zero
  | .stringOrBytes => return (⟨[], false⟩ : StringOrBytes)
  | .nullable _ => return none
  | .either _ _ => return Either.neither

end Interchange.Shape
