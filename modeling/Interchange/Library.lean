import Interchange.Arguments
import Interchange.Container.Fields
import Interchange.Crossing.Text
import Interchange.RunningSum

/-!
# The library modules

The modules that are offered to scripts, and what their functions do: `json` writes and reads,
`math` adds and truncates, `text` measures, `time` tells.
-/

namespace Interchange

/-- The version of the library. -/
def version : String := "0.1.0"

namespace LibraryFunction

def name : LibraryFunction → String
  | encode => "encode"
  | decode => "decode"
  | sum => "sum"
  | truncate => "trunc"
  | byteLength => "byte_len"
  | now => "now"

/-- The least and the greatest number of arguments. -/
def arity : LibraryFunction → Nat × Nat
  | encode => (1, 2)
  | now => (0, 0)
  | _ => (1, 1)

/-- Runs a function on arguments. A negative indentation counts as zero. -/
def run (function : LibraryFunction) (args : List Value) : Op Value := do
  let (least, most) := function.arity
  Op.ofExcept (Arguments.checkCount function.name args.length least most)
  let store ← get
  match function with
  | encode => do
    let first := args.headD .nothing
    match ← Op.ofExcept (Arguments.optional store function.name .int64 args 1) with
    | some indent => return .string (← Op.ofExcept (store.toJsonPretty (Int.toNat indent) first))
    | none => return .string (← Op.ofExcept (store.toJsonText first))
  | decode => do
    let text : StringOrBytes ←
      Op.ofExcept (Arguments.required store function.name .stringOrBytes args 0)
    Op.fromJsonText text.text
  | sum => do
    let list ← Op.ofExcept (Arguments.required store function.name .list args 0)
    match RunningSum.zero.addAll store (ValueList.itemsOf (store.cell list)) with
    | .ok total => return total.value
    | .error mismatch => throw (.shape function.name mismatch)
  | truncate => do
    let x : Binary64 ← Op.ofExcept (Arguments.required store function.name .intOrFloat args 0)
    return .int x.toInt64
  | byteLength => do
    let text : StringOrBytes ←
      Op.ofExcept (Arguments.required store function.name .stringOrBytes args 0)
    return .int text.bytes.length
  | now => return .time store.clock

/-- The modules and their functions, in the order in which they are registered. -/
def modules : List (String × List LibraryFunction) :=
  [("json", [encode, decode]), ("math", [sum, truncate]), ("text", [byteLength]), ("time", [now])]

end LibraryFunction

/-- A new library module, with a new function for each member. -/
def Op.newLibraryModule (name : String) (functions : List LibraryFunction) : Op Ref := do
  let members ← functions.mapM fun function => do
    let member ← Op.new (.function { name := function.name, routine := .library function })
    return (function.name, member)
  Op.newModule name members

end Interchange
