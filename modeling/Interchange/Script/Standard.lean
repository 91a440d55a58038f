import Interchange.Script.Primitive

/-!
# The functions that every session begins with

What comes of calling them on a value.
-/

namespace Interchange.Script

/-- The refusal of a value that stands for no object. -/
def demandObject (d : Datum) : Run Unit :=
  if d.isNullish then Run.raise "cannot convert to object" else return ()

/-- The name of a property that a value is taken for; a symbol is none of the names. -/
def propertyName? (call : Caller) (d : Datum) : Run (Option WideString) := do
  match d with
  | .symbol => return none
  | d => return some (← textOf call d)

/-- The word in brackets for what a value is. -/
def kindWord (d : Datum) : Run String := do
  match d with
  | .undefined => return "Undefined"
  | .null => return "Null"
  | .bool _ => return "Boolean"
  | .number _ => return "Number"
  | .string _ => return "String"
  | .bigint _ => return "BigInt"
  | .symbol => return "Symbol"
  | .object place =>
    match (← Run.read place).nature with
    | .array _ => return "Array"
    | .record => return "Object"
    | .function _ => return "Function"
    | .error _ => return "Error"
    | .globals => return "Object"
  | .builtin .arrayPrototype => return "Array"
  | .builtin .functionPrototype => return "Function"
  | .builtin (.function _) => return "Function"
  | .builtin _ => return "Object"

/-- The object that a value is, or is made into. A string becomes a record of its units. -/
def objectOf (d : Datum) : Run Datum :=
  match d with
  | .object place => return .object place
  | .builtin b => return .builtin b
  | .string s =>
    Run.alloc (.ofProperties (s.units.mapIdx fun i unit => (toString i, .string (.ofUnits [unit]))))
  | _ => Run.alloc (.ofProperties [])

/-- The texts of elements with commas between them; what stands for nothing has the empty text. -/
def elementsText (call : Caller) (array : Datum) : Run WideString := do
  demandObject array
  let length := match ← property array "length" with
    | .number x => (x.integer?.getD 0).toNat
    | _ => 0
  let texts ← (List.range length).mapM fun index => do
    let item ← property array (toString index)
    if item.isNullish then return .text "" else textOf call item
  return .intercalate "," texts

/-- The name and the message of an error, as far as they are not empty. -/
def errorText (call : Caller) (error : Datum) : Run WideString := do
  let name ← match ← property error "name" with
    | .undefined => pure (.text "Error")
    | name => textOf call name
  let message ← match ← property error "message" with
    | .undefined => pure (.text "")
    | message => textOf call message
  return .intercalate ": " ([name, message].filter (· != ""))

/-- A function as it is written; one that no script wrote has a text of its own. -/
def functionText (function : Datum) : Run String := do
  if !(← isFunction function) then Run.raise "not a function"
  match function with
  | .object place =>
    match (← Run.read place).nature with
    | .function (.body _) => return "function()\x7b\x7d"
    | _ => return "function () \x7b\n    [native code]\n\x7d"
  | _ => return "function () \x7b\n    [native code]\n\x7d"

/-- Is an object among the prototypes of a value? -/
def isPrototypeWithin : Nat → Datum → Datum → Run Bool
  | 0, _, _ => return false
  | depth + 1, prototype, d => do
    match ← prototypeOf d with
    | .null => return false
    | found => if found == prototype then return true else isPrototypeWithin depth prototype found

/-- Is a property one that a walk over an object meets? -/
def isEnumerable (d : Datum) (name : WideString) : Run Bool := do
  match d with
  | .object place =>
    let object ← Run.read place
    match object.nature with
    | .array _ => return name != "length" && (object.own? name).isSome
    | _ => return (object.properties.lookup name).isSome
  | .builtin .globals => return ((← get).globals.properties.lookup name).isSome
  | _ => return false

/-- Defines a property that reads as undefined, which is what a function without a result makes of
it. -/
def defineAccessor (d : Datum) (name : WideString) : Run Unit := do
  match d with
  | .object place => do Run.write place ((← Run.read place).define name .undefined)
  | _ => return ()

/-- What comes of a function that is called without arguments. -/
def EmptyCall.answer : EmptyCall → Run Datum
  | plain => return .undefined
  | symbol => return .symbol
  | error => Run.alloc (.ofMessage none)
  | function => Run.alloc (.ofFunction (.body (.returns .undefined)))
  | refused message => Run.raise message

/-- Calls a function on a value; `call` calls a function that it comes upon. -/
def BuiltinFunction.run (function : BuiltinFunction) (call : Caller) (d : Datum)
    (args : List Datum) : Run Datum := do
  let first := args.headD .undefined
  match function with
  | objectOf => Script.objectOf first
  | kindText => return .string ("[object " ++ (← kindWord d) ++ "]")
  | ownText => do call (← property d "toString") d []
  | itself => do
    demandObject d
    Script.objectOf d
  | hasOwn => do
    demandObject d
    match ← propertyName? call first with
    | some name => return .bool (← ownProperty? d name).isSome
    | none => return .bool false
  | isPrototype =>
    if first.isObject then
      demandObject d
      return .bool (← isPrototypeWithin ((← get).heap.size + 4) d first)
    else return .bool false
  | isEnumerable => do
    demandObject d
    match ← propertyName? call first with
    | some name => return .bool (← Script.isEnumerable d name)
    | none => return .bool false
  | defineAccessor => do
    demandObject d
    if !(← isFunction (args.getD 1 .undefined)) then Run.raise "not a function"
    match ← propertyName? call first with
    | some name => Script.defineAccessor d name
    | none => pure ()
    return .undefined
  | findAccessor => do
    demandObject d
    match ← propertyName? call first with
    | some name =>
      match ← findProperty? d name with
      | some .prototype => return .builtin (.function other)
      | some (.answered _) => return .builtin (.function other)
      | some .guarded => return .builtin (.function other)
      | _ => return .undefined
    | none => return .undefined
  | elementsText => return .string (← Script.elementsText call d)
  | functionText => return .string (← Script.functionText d)
  | errorText => return .string (← Script.errorText call d)
  | initial outcome => outcome.answer

end Interchange.Script
