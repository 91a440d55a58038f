import Interchange.Script.Session

/-!
# Properties

How a property is found and written. An object has properties of its own and those of its
prototypes, nearest first. Writing makes or changes a property of the object itself, unless the
property that is found refuses that; writing under the name of the prototype exchanges the
prototype. Written properties have an order: names that are array indices first, ascending, and the
others as they were entered.
-/

namespace Interchange.Script

inductive Property where
  | data (value : Datum)
  | readOnly (value : Datum)
  /-- A property that a function answers and none writes. -/
  | answered (value : Datum)
  /-- A property that can be neither read nor written. -/
  | guarded
  /-- The prototype of the object that is asked. -/
  | prototype
deriving DecidableEq, Repr

/-! ## Names -/

/-- The greatest array index. -/
def maxIndex : Nat := 4294967294

/-- The array index that a name spells: digits without a leading zero, in range. -/
def arrayIndex? : WideString → Option Nat
  | .broken _ => none
  | .text name =>
    match name.toList with
    | [] => none
    | c :: rest =>
      if (c :: rest).all Char.isDigit && (c != '0' || rest.isEmpty) then
        let n := (c :: rest).foldl (fun n c => 10 * n + (c.toNat - '0'.toNat)) 0
        if n ≤ maxIndex then some n else none
      else none

/-- The name of a property as the embedding side is told it: what is before its first NUL. -/
def tellName (name : WideString) : Run String := Run.readText name.beforeNul

/-- The room for a name that is not ASCII in a message. -/
def nameRoom : Nat := 58

/-- How many bytes a unit takes in a message. -/
def unitSize (unit : UInt16) : Nat :=
  if unit < 0x80 then 1 else if unit < 0x800 then 2 else 3

/-- The units of a name that fit the room, which may end inside a character. -/
def fitting : Nat → List UInt16 → List UInt16
  | _, [] => []
  | used, unit :: rest =>
    if nameRoom ≤ used then [] else unit :: fitting (used + unitSize unit) rest

/-- The room for a message in bytes. -/
def messageRoom : Nat := 255

/-- A message about a name, which ends at its first NUL. -/
def nameMessage (before name after : WideString) : WideString :=
  let shown := if name.units.all (· < 0x80) then name.units else fitting 0 name.units
  let words := before.units ++ shown.takeWhile (· != 0) ++ after.units
  .ofUnits (words.take messageRoom)

/-! ## Own properties -/

/-- Enters a new index among properties: behind the lesser indices and before all else. -/
def insertIndex (index : Nat) (name : WideString) (value : Datum) :
    List (WideString × Datum) → List (WideString × Datum)
  | [] => [(name, value)]
  | (other, old) :: rest =>
    match arrayIndex? other with
    | some n =>
      if n < index then (other, old) :: insertIndex index name value rest
      else (name, value) :: (other, old) :: rest
    | none => (name, value) :: (other, old) :: rest

/-- Replaces the value of a property that is there. -/
def replaceProperty (name : WideString) (value : Datum) (properties : List (WideString × Datum)) :
    List (WideString × Datum) :=
  properties.map fun entry => if entry.1 == name then (name, value) else entry

/-- Makes or changes a property. -/
def setProperty (name : WideString) (value : Datum) (properties : List (WideString × Datum)) :
    List (WideString × Datum) :=
  if properties.any fun entry => entry.1 == name then replaceProperty name value properties
  else
    match arrayIndex? name with
    | some index => insertIndex index name value properties
    | none => properties ++ [(name, value)]

/-- The name under which an object has its prototype. -/
def prototypeName : String := "__proto__"

/-- A function among some that go by names. -/
def functionNamed? (functions : List (String × BuiltinFunction)) : WideString → Option Property
  | .text name => (functions.lookup name).map fun f => .data (.builtin (.function f))
  | .broken _ => none

/-- The globals that a session begins with. -/
def initialGlobal? : WideString → Option Property
  | .text "undefined" => some (.readOnly .undefined)
  | .text "NaN" => some (.readOnly (.number .nan))
  | .text "Infinity" => some (.readOnly (.number (.infinity false)))
  | .text "globalThis" => some (.data (.builtin .globals))
  | .text name =>
    if libraryNames.contains name then some (.data (.builtin .library))
    else functionNamed? BuiltinFunction.ofGlobals name
  | .broken _ => none

/-- The properties of a function of the heap. -/
def Function.own? (function : Function) (name : WideString) : Option Property :=
  match function, name with
  | .host _, .text "length" => some (.readOnly (numberOfInt 0))
  | .method _ m, .text "length" => some (.readOnly (numberOfInt m.needed))
  | .body _, .text "length" => some (.readOnly (numberOfInt 0))
  | .body _, .text "name" => some (.readOnly (.string ""))
  | .body _, .text "prototype" => some (.data .undefined)
  | _, _ => none

/-- The property that an object has itself. -/
def Object.own? (object : Object) (name : WideString) : Option Property :=
  match object.properties.lookup name with
  | some d => some (.data d)
  | none =>
    match object.nature with
    | .array items =>
      if name = "length" then some (.data (numberOfInt items.length))
      else ((arrayIndex? name).bind (items[·]?)).join.map .data
    | .record => none
    | .function function => function.own? name
    | .error message =>
      if name = "message" then message.map fun text => .data (.string text) else none
    | .globals => initialGlobal? name

/-- The property that an object has itself which every session begins with. -/
def Builtin.own? (builtin : Builtin) (name : WideString) : Option Property :=
  match builtin with
  | globals => initialGlobal? name
  | recordPrototype =>
    if name = prototypeName then some .prototype
    else functionNamed? BuiltinFunction.ofRecords name
  | arrayPrototype =>
    if name = "length" then some (.data (numberOfInt 0))
    else functionNamed? BuiltinFunction.ofArrays name
  | functionPrototype =>
    match name with
    | .text "length" => some (.readOnly (numberOfInt 0))
    | .text "name" => some (.readOnly (.string ""))
    | .text "fileName" => some (.answered .undefined)
    | .text "lineNumber" => some (.answered .undefined)
    | .text "caller" => some .guarded
    | .text "arguments" => some .guarded
    | name => functionNamed? BuiltinFunction.ofFunctions name
  | errorPrototype =>
    match name with
    | .text "name" => some (.data (.string "Error"))
    | .text "message" => some (.data (.string ""))
    | name => functionNamed? BuiltinFunction.ofErrors name
  | library => none
  | function _ =>
    match name with
    | .text "length" => some (.readOnly (numberOfInt 0))
    | .text "name" => some (.readOnly (.string ""))
    | _ => none

/-- The prototype of an object that every session begins with. -/
def Builtin.prototype : Builtin → Datum
  | recordPrototype => .null
  | function _ => .builtin .functionPrototype
  | _ => .builtin .recordPrototype

/-! ## Finding -/

/-- The property that a value has itself. -/
def ownProperty? (d : Datum) (name : WideString) : Run (Option Property) := do
  match d with
  | .object place => return (← Run.read place).own? name
  | .builtin .globals => return (← get).globals.own? name
  | .builtin b => return b.own? name
  | _ => return none

/-- The prototype of a value. -/
def prototypeOf (d : Datum) : Run Datum := do
  match d with
  | .object place => return (← Run.read place).prototype
  | .builtin .globals => return (← get).globals.prototype
  | .builtin b => return b.prototype
  | _ => return .null

/-- The property that a value or one of its prototypes has. -/
def findPropertyWithin : Nat → Datum → WideString → Run (Option Property)
  | 0, _, _ => return none
  | depth + 1, d, name => do
    match ← ownProperty? d name with
    | some found => return some found
    | none =>
      match ← prototypeOf d with
      | .null => return none
      | prototype => findPropertyWithin depth prototype name

/-- The property that a value or one of its prototypes has. No chain of prototypes is longer than
the heap and the four objects at its end. -/
def findProperty? (d : Datum) (name : WideString) : Run (Option Property) := do
  findPropertyWithin ((← get).heap.size + 4) d name

/-- What is read from a property of a value. -/
def Property.read (found : Property) (d : Datum) : Run Datum :=
  match found with
  | data value => return value
  | readOnly value => return value
  | answered value => return value
  | guarded => Run.raise "invalid property access"
  | prototype => prototypeOf d

/-- The property of a value. -/
def property (target : Datum) (name : WideString) : Run Datum := do
  match target with
  | .undefined => Run.raise (nameMessage "cannot read property '" name "' of undefined")
  | .null => Run.raise (nameMessage "cannot read property '" name "' of null")
  | target =>
    match ← findProperty? target name with
    | some found => found.read target
    | none => return .undefined

/-- The element of an array at an index. -/
def element (array : Object) (index : Nat) : Option Datum → Run Datum
  | some d => return d
  | none => do
    match ← findProperty? array.prototype (toString index) with
    | some found => found.read array.prototype
    | none => return .undefined

/-! ## Writing -/

/-- Writes an element of an array; the array grows to hold it. -/
def setElement (index : Nat) (d : Datum) (items : List (Option Datum)) : List (Option Datum) :=
  if index < items.length then items.set index (some d)
  else items ++ List.replicate (index - items.length) none ++ [some d]

/-- Cuts an array short or makes room at its end. -/
def resize (length : Nat) (items : List (Option Datum)) : List (Option Datum) :=
  items.take length ++ List.replicate (length - items.length) none

/-- The object with a property of its own. -/
def Object.define (object : Object) (name : WideString) (d : Datum) : Object :=
  match object.nature, arrayIndex? name with
  | .array items, some index => { object with nature := .array (setElement index d items) }
  | _, _ => { object with properties := setProperty name d object.properties }

/-- The object with another prototype, if a value can be one. -/
def Object.withPrototype (object : Object) (d : Datum) : Object :=
  if d.isObject || d == .null then { object with prototype := d } else object

/-- Writes a property of an object. -/
def Object.put (object : Object) (name : WideString) (d : Datum) : Run Object := do
  let found ← match object.own? name with
    | some found => pure (some found)
    | none => findProperty? object.prototype name
  match found with
  | none => return object.define name d
  | some (.data _) => return object.define name d
  | some (.readOnly _) => Run.raise (nameMessage "'" name "' is read-only")
  | some (.answered _) => Run.raise "no setter for property"
  | some .guarded => Run.raise "invalid property access"
  | some .prototype => return object.withPrototype d

/-- A step of the embedding side: what the engine throws there is a fault of the engine. -/
def embedded {α : Type} (run : Run α) : Run α :=
  tryCatch run fun
    | .thrown _ => throw (.engine .exception)
    | stop => throw stop

/-- The global of a name. -/
def global (name : String) : Run Datum := property (.builtin .globals) name

/-- Writes a global. -/
def setGlobal (name : String) (d : Datum) : Run Unit := embedded do
  let globals ← (← get).globals.put name d
  modify fun session => { session with globals }

end Interchange.Script
