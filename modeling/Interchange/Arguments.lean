import Interchange.Coercion
import Interchange.Op

/-!
# Arguments

How a function takes its positional arguments: by a count and by shapes.
-/

namespace Interchange.Arguments

/-- Passes a number of arguments in a range. -/
def checkCount (function : String) (got least most : Nat) : Except Fault Unit :=
  if got < least ∨ most < got then .error (.argumentCount function least most got) else .ok ()

/-- An argument as its receiver holds it. -/
def unpackAt (store : Store) (function : String) (shape : Shape) (v : Value) (index : Nat) :
    Except Fault shape.Carrier :=
  match store.unpack shape v with
  | .ok held => .ok held
  | .error mismatch => .error (.shape s!"{function}: for parameter {index + 1}" mismatch)

/-- The argument at an index, which has to be there. -/
def required (store : Store) (function : String) (shape : Shape) (args : List Value) (index : Nat) :
    Except Fault shape.Carrier :=
  match args[index]? with
  | some v => unpackAt store function shape v index
  | none => .error (.argumentCount function (index + 1) maxArguments args.length)

/-- The argument at an index; one that is missing or nothing is absent. -/
def optional (store : Store) (function : String) (shape : Shape) (args : List Value)
    (index : Nat) : Except Fault (Option shape.Carrier) :=
  match args[index]? with
  | none => .ok none
  | some .nothing => .ok none
  | some v =>
    match unpackAt store function shape v index with
    | .ok held => .ok (some held)
    | .error fault => .error fault

end Interchange.Arguments
