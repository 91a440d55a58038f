import Interchange.Arguments
import Interchange.Attribute
import Interchange.Container.ValueList
import Interchange.Crossing.Text
import Interchange.Store.Nesting

/-!
# Shared mappings

A shared mapping is a name, a dict of its own and a flag of its own. A function that works on the
mapping is given the dict itself; everything else goes through the operations here, which check the
mapping's flag before they touch the dict. Its values lead to no other shared mapping.
-/

namespace Interchange

/-- A shared mapping as its cell has it. -/
structure Mapping where
  name : String
  dict : Ref
  frozen : Bool
deriving DecidableEq, Repr

namespace Mapping

/-- The name of a mapping that is not given one. -/
def defaultName : String := "shared_dict"

/-- The mapping in a cell. -/
def ofCell? : Cell → Option Mapping
  | .mapping name dict frozen => some ⟨name, dict, frozen⟩
  | _ => none

/-- A new mapping over a dict. -/
def onDict (name : String) (dict : Ref) : Op Value := Op.new (.mapping name dict false)

/-- A new empty mapping. -/
def new (name : String) : Op Value := do onDict name (← Dict.alloc)

/-- A new mapping of the entries of a dict, which stays apart. -/
def ofDict (name : String) (dict : Ref) : Op Value := do onDict name (← Dict.clone dict)

/-- Reads the mapping in a cell. -/
def read (ref : Ref) : Op Mapping := do
  match ofCell? (← Op.cell ref) with
  | some mapping => return mapping
  | none => throw (.unsupported "read" ((← get).typeName (.object ref)))

/-- Passes a mapping that may be changed. -/
def checkMutable (mapping : Mapping) (op : String) : Op Unit :=
  if mapping.frozen then throw (.frozen op mapping.name) else return ()

/-- Passes a value that may be stored. -/
def checkStorable (op : String) (v : Value) : Op Unit := do
  Op.ofExcept ((← get).checkStorable op v)

def get? (ref : Ref) (key : Value) : Op (Option Value) := do Dict.get? (← read ref).dict key

def contains (ref : Ref) (key : Value) : Op Bool := return (← get? ref key).isSome

def entries (ref : Ref) : Op (List (Value × Value)) := do Dict.entries (← read ref).dict

def keys (ref : Ref) : Op (List Value) := return (← entries ref).map Prod.fst

def size (ref : Ref) : Op Nat := return (← entries ref).length

/-- Writes a value under a key. -/
def setKey (ref : Ref) (key value : Value) : Op Unit := do
  let mapping ← read ref
  mapping.checkMutable "set_key"
  checkStorable "set_key" value
  Dict.insert mapping.dict key value

/-- Takes the entry of a key away and answers its value. -/
def deleteKey (ref : Ref) (key : Value) : Op (Option Value) := do
  let mapping ← read ref
  mapping.checkMutable "delete_key"
  Dict.remove mapping.dict key

/-- Writes entries one after the other, each if its value may be stored. -/
def merge (dict : Ref) (op : String) (entries : List (Value × Value)) : Op Unit :=
  entries.forM fun entry => do
    checkStorable op entry.2
    Dict.insert dict entry.1 entry.2

/-- Writes the members of a JSON object. -/
def loadJson (ref : Ref) (text : String) : Op Unit := do
  let mapping ← read ref
  mapping.checkMutable "load_json"
  let decoded ← Op.dictFromJsonText text
  merge mapping.dict "load_json" (← Dict.entries decoded)

/-- A new dict of the same entries. -/
def cloneDict (ref : Ref) : Op Value := do return .object (← Dict.clone (← read ref).dict)

/-- The JSON text of the entries. -/
def toJson (ref : Ref) : Op String := do
  let copy ← cloneDict ref
  Op.ofExcept ((← get).toJsonText copy)

/-- Runs a routine of the embedding side on the dict itself. -/
def withDict {α : Type} (routine : Ref → Op α) (ref : Ref) : Op α := do
  let mapping ← read ref
  routine mapping.dict

/-- Runs a function on the dict itself. -/
def perform (call : Ref → List Value → Op Value) (ref function : Ref) : Op Value :=
  withDict (fun dict => call function [.object dict]) ref

/-- The value under a key; where there is none, a default is written and answered. -/
def setDefault (ref : Ref) (key fallback : Value) : Op Value := do
  let mapping ← read ref
  match ← Dict.get? mapping.dict key with
  | some existing => return existing
  | none =>
    mapping.checkMutable "setdefault"
    checkStorable "setdefault" fallback
    Dict.insert mapping.dict key fallback
    return fallback

/-- Writes the entries of another dict. -/
def update (ref other : Ref) : Op Unit := do
  let mapping ← read ref
  mapping.checkMutable "update"
  merge mapping.dict "update" (← Dict.entries other)

def clear (ref : Ref) : Op Unit := do
  let mapping ← read ref
  mapping.checkMutable "clear"
  Dict.clear mapping.dict

/-! ## Methods -/

/-- The value under a key, taken away; where there is none, the default if there is one. -/
def pop (ref : Ref) (key : Value) (fallback : Option Value) : Op Value := do
  match ← deleteKey ref key, fallback with
  | some v, _ => return v
  | none, some v => return v
  | none, none => throw (.keyNotFound (← Op.display key))

/-- The least and the greatest number of arguments of a method. -/
def arity : Method → Nat × Nat
  | .clear => (0, 0)
  | .fromJson => (1, 1)
  | .get => (1, 2)
  | .items => (0, 0)
  | .keys => (0, 0)
  | .size => (0, 0)
  | .perform => (1, 1)
  | .pop => (1, 2)
  | .setDefault => (1, 2)
  | .toDict => (0, 0)
  | .toJson => (0, 0)
  | .update => (0, 1)
  | .values => (0, 0)

/-- The entries as a list of pairs. -/
def itemPairs (ref : Ref) : Op Value := do
  let pairs ← (← entries ref).mapM fun entry => Op.new (.tuple [entry.1, entry.2])
  ValueList.new pairs

/-- Runs a method on arguments; `call` runs a function that is among them. -/
def run (call : Ref → List Value → Op Value) (ref : Ref) (method : Method) (args : List Value) :
    Op Value := do
  let (least, most) := arity method
  Op.ofExcept (Arguments.checkCount method.name args.length least most)
  let first := args.headD .nothing
  match method with
  | .clear => do
    clear ref
    return .nothing
  | .fromJson => do
    let text ← Op.ofExcept (Arguments.required (← get) method.name .string args 0)
    loadJson ref text
    return .nothing
  | .get => return (← get? ref first).getD (args.getD 1 .nothing)
  | .items => itemPairs ref
  | .keys => do ValueList.new (← keys ref)
  | .size => return .int (← size ref)
  | .perform => do
    let function ← Op.ofExcept (Arguments.required (← get) method.name .function args 0)
    perform call ref function
  | .pop => pop ref first args[1]?
  | .setDefault => setDefault ref first (args.getD 1 .nothing)
  | .toDict => cloneDict ref
  | .toJson => return .string (← toJson ref)
  | .update => do
    match ← Op.ofExcept (Arguments.optional (← get) method.name .dict args 0) with
    | some other => update ref other
    | none => pure ()
    return .nothing
  | .values => do ValueList.new ((← entries ref).map Prod.snd)

end Mapping
end Interchange
