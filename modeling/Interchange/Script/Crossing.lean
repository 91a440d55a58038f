import Interchange.Script.Property

/-!
# Between values and script values

Both directions copy, and both go at most 64 levels deep: what lies deeper, and so every graph that
contains itself, is refused as cyclic. The depth is checked before anything else about a part.
-/

namespace Interchange.Script

/-- A part may lie this many levels deep. -/
def maxDepth : Nat := 64

/-- The name of the way into values, in faults. -/
def intoName : String := "from_js"

/-- The name of the way into script values, in faults. -/
def outName : String := "to_js"

/-- The value of an object, given those of its parts. -/
def ofObject (part : Datum → Run Value) (object : Object) : Run Value := do
  let dictOf (properties : List (WideString × Datum)) : Run Value := do
    let dict ← Run.onStore Dict.alloc
    properties.forM fun property => do
      let name ← tellName property.1
      let v ← part property.2
      Run.onStore (Dict.insert dict (.string name) v)
    return .object dict
  match object.nature with
  | .array items => do
    let values ← (items.mapIdx (·, ·)).mapM fun (index, item) => do
      part (← element object index item)
    Run.onStore (ValueList.new values)
  | .record => dictOf object.properties
  | .globals => dictOf object.properties
  | .function _ => throw (.fault (.unsupported intoName object.nature.kind))
  | .error _ => throw (.fault (.unsupported intoName object.nature.kind))

/-- The value of a script value, within a number of levels. -/
def toValueWithin : Nat → Datum → Run Value
  | 0, d => do throw (.fault (.cyclic intoName (← kindOf d)))
  | levels + 1, d => do
    match d with
    | .undefined => return .nothing
    | .null => return .nothing
    | .bool b => return .bool b
    | .number x =>
      match int32? x with
      | some i => return .int i
      | none => return .float x
    | .string s => return .string (← Run.readText s)
    | .bigint i => return .int i
    | .symbol => throw (.fault (.unsupported intoName (← kindOf d)))
    | .object place => do ofObject (toValueWithin levels) (← Run.read place)
    | .builtin .globals => do ofObject (toValueWithin levels) (← get).globals
    | .builtin .arrayPrototype => Run.onStore (ValueList.new [])
    | .builtin b =>
      if b.kind = "function" then throw (.fault (.unsupported intoName b.kind))
      else return .object (← Run.onStore Dict.alloc)

/-- The value of a script value. -/
def toValue (d : Datum) : Run Value := toValueWithin (maxDepth + 1) d

/-- A script function for a method of a shared mapping. -/
def methodEntry (mapping : Ref) (method : MappingMethod) : Run (WideString × Datum) := do
  return (method.name, ← Run.alloc (.ofFunction (.method mapping method)))

/-- The script's view of a shared mapping: a record of its methods. -/
def ofMapping (mapping : Ref) : Run Datum := do
  Run.alloc (.ofProperties (← MappingMethod.all.mapM (methodEntry mapping)))

/-- A record of named parts, written one after the other. -/
def recordOf (part : Value → Run Datum) (entries : List (Run String × Value)) : Run Datum := do
  let object ← entries.foldlM (fun object entry => do
    let name ← entry.1
    let d ← part entry.2
    embedded (object.put name d)) (Object.ofProperties [])
  Run.alloc object

/-- A record of parts under names that are given. -/
def recordOfNamed (part : Value → Run Datum) (entries : List (String × Value)) : Run Datum :=
  recordOf part (entries.map fun entry => (pure entry.1, entry.2))

/-- The script value of a cell, given that of its parts. -/
def ofCell (part : Value → Run Datum) (typeName : String) (ref : Ref) : Cell → Run Datum
  | .list items _ => do Run.alloc (.ofItems (← items.mapM part))
  | .tuple items => do Run.alloc (.ofItems (← items.mapM part))
  | .set items _ => do Run.alloc (.ofItems (← items.mapM part))
  | .dict entries _ =>
    recordOf part (entries.map fun entry => (Run.onStore (Op.text entry.1), entry.2))
  | .record _ fields => recordOfNamed part fields
  | .module _ members => recordOfNamed part members
  | .function _ => Run.alloc (.ofFunction (.host ref))
  | .mapping _ _ _ => ofMapping ref
  | .extension _ => throw (.fault (.unsupported outName typeName))
  | .proxy _ => throw (.fault (.unsupported outName typeName))

/-- The script value of a value, within a number of levels. -/
def ofValueWithin : Nat → Value → Run Datum
  | 0, v => do throw (.fault (.cyclic outName ((← get).store.typeName v)))
  | levels + 1, v => do
    match v with
    | .nothing => return .null
    | .bool b => return .bool b
    | .int i => return numberOfInt i
    | .float x => return .number x
    | .string s => return .string s
    | .bytes b => Run.alloc (.ofItems (b.map fun byte => numberOfInt byte.toNat))
    | .time t => return .string t.text
    | .object ref => do
      let store := (← get).store
      ofCell (ofValueWithin levels) (store.typeName v) ref (store.cell ref)

/-- The script value of a value. -/
def ofValue (v : Value) : Run Datum := ofValueWithin (maxDepth + 1) v

end Interchange.Script
