import Interchange.Json.Fault

/-!
# Faults

Why an operation on values has no result. A fault is a cause; `Fault.message` words it. The last two
end the whole program: a walk without an end by the depth of its calls, and a want of memory.
-/

namespace Interchange

/-- A value of another shape than the receiver takes. -/
structure Mismatch where
  got : String
  want : String
deriving DecidableEq, Repr

def Mismatch.message (m : Mismatch) : String := s!"got {m.got}, want {m.want}"

/-- The greatest count of arguments; as an upper bound it is none. -/
def maxArguments : Nat := 18446744073709551615

inductive Fault where
  | unsupported (op typeName : String)
  | cyclic (op typeName : String)
  /-- There is no value at all. -/
  | nil (op : String)
  /-- A handle of a known type refers to nothing. -/
  | typedNil (op typeName : String)
  | frozen (op typeName : String)
  | shape (op : String) (mismatch : Mismatch)
  | mismatch (mismatch : Mismatch)
  | unhashable (typeName : String)
  | keyNotFound (key : String)
  | indexOutOfRange (index : Int) (length : Nat)
  | noAttribute (typeName name : String)
  | notCallable (typeName : String)
  | argumentCount (function : String) (least most got : Nat)
  | moduleNotFound (name : String)
  | duplicateModule (name : String)
  | json (op : String) (fault : Json.Fault)
  | custom (message : String)
  /-- The walk over a value would have no end. -/
  | endless
  /-- The memory has no room for a text. -/
  | exhausted
deriving DecidableEq, Repr

namespace Fault

/-- The words for an allowed range of counts. -/
def countRange (least most : Nat) : String :=
  if least = most then toString least
  else if most = maxArguments then s!"at least {least}"
  else s!"{least} to {most}"

def message : Fault → String
  | unsupported op typeName => s!"{op}: unsupported type {typeName}"
  | cyclic op typeName => s!"{op}: cyclic reference found in {typeName}"
  | nil op => s!"{op}: nil value"
  | typedNil op typeName => s!"{op}: typed nil value of {typeName}"
  | frozen op typeName => s!"{op}: cannot mutate frozen {typeName}"
  | shape op m => s!"{op}: {m.message}"
  | mismatch m => m.message
  | unhashable typeName => s!"unhashable type: {typeName}"
  | keyNotFound key => s!"key {key} not found"
  | indexOutOfRange index length => s!"index {index} out of range [0:{length}]"
  | noAttribute typeName name => s!"{typeName} has no attribute " ++ Text.quote name
  | notCallable typeName => s!"value of type {typeName} is not callable"
  | argumentCount function least most got =>
    s!"{function}: got {got} arguments, want " ++ countRange least most
  | moduleNotFound name => "module " ++ Text.quote name ++ " not found"
  | duplicateModule name => "module " ++ Text.quote name ++ " is already registered"
  | json op fault => s!"{op}: {fault.text}"
  | custom text => text
  | endless => "the walk over the value has no end"
  | exhausted => "the memory has no room for the text"

/-- Does a fault end the program, so that nothing on the way can catch it? -/
def isFinal : Fault → Bool
  | endless => true
  | exhausted => true
  | _ => false

end Fault
end Interchange
