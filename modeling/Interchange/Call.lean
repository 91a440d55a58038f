import Interchange.Attribute
import Interchange.Library
import Interchange.Mapping

/-!
# Calls

What a function does with its arguments. Only `perform` runs another function, and gives it a dict
alone; a function so run cannot be given a further function, so two layers are enough.
-/

namespace Interchange

namespace Edit

/-- The edit that a word names, with up to two operands. -/
def ofWord (word : String) (a b : Value) : Edit :=
  match word with
  | "insert" => .insert a b
  | "insert_self" => .insertSelf a
  | "remove" => .remove a
  | "get" => .lookup a
  | "clear" => .clear
  | "len" => .size
  | "freeze" => .freeze
  | "repr" => .display
  | "incr" => .increment a
  | other => .unknown other

/-- The integer under a key, one more. -/
def increase (dict : Ref) (key : Value) : Op Unit := do
  let current := (← Dict.get? dict key).getD (.int 0)
  let count : Int ← Op.ofExcept (Arguments.required (← get) "incr" .int64 [current] 0)
  Dict.insert dict key (.int (count + 1))

/-- Does one step on a dict. -/
def run (dict : Ref) : Edit → Op Value
  | insert key value => do
    Dict.insert dict key value
    return .nothing
  | insertSelf key => do
    Dict.insert dict key (.object dict)
    return .nothing
  | remove key => return (← Dict.remove dict key).getD .nothing
  | lookup key => return (← Dict.get? dict key).getD .nothing
  | clear => do
    Dict.clear dict
    return .nothing
  | size => return .int (← Dict.size dict)
  | freeze => do
    Op.freeze (.object dict)
    return .nothing
  | display => return .string (← Op.display (.object dict))
  | increment key => do
    increase dict key
    return .nothing
  | unknown word => throw (.custom ("unknown step " ++ word))

end Edit

namespace Function

/-- Runs a function on arguments; `inner` runs a function that it is given. -/
def runWith (inner : Ref → List Value → Op Value) (function : Function) (args : List Value) :
    Op Value :=
  match function.routine with
  | .constant v => return v
  | .failure message => throw (.custom message)
  | .argument index => return args.getD index .nothing
  | .gather => ValueList.new args
  | .edits steps => do
    let dict ← Op.ofExcept (Arguments.required (← get) "steps" .dict args 0)
    let results ← steps.mapM (Edit.run dict)
    ValueList.new results
  | .library function => function.run args
  | .method mapping method => Mapping.run inner mapping method args

end Function

namespace Op

/-- The refusal of what is no function. -/
def notCallable (ref : Ref) : Op Value := do
  throw (.notCallable ((← get).typeName (.object ref)))

/-- Calls the function in a cell, with a way to call the functions that it is given. -/
def callWith (inner : Ref → List Value → Op Value) (ref : Ref) (args : List Value) : Op Value := do
  match ← cell ref with
  | .function function => function.runWith inner args
  | _ => notCallable ref

/-- Calls the function in a cell. -/
def callRef (ref : Ref) (args : List Value) : Op Value :=
  callWith (callWith fun ref _ => notCallable ref) ref args

/-- Calls a value. -/
def call (v : Value) (args : List Value) : Op Value := do
  match v with
  | .object ref => callRef ref args
  | v => throw (.notCallable ((← get).typeName v))

end Op
end Interchange
