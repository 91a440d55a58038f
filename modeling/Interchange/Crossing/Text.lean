import Interchange.Container.Fields
import Interchange.Crossing.Arrival
import Interchange.Crossing.Departure
import Interchange.Coercion
import Interchange.Crossing.Tree
import Interchange.Json.Parser
import Interchange.Schema

/-!
# Values as JSON text, and typed values

Writing goes by way of host values and their trees, reading the other way. Typed receivers and
senders exchange trees, in which every object has its members in order of their names.
-/

namespace Interchange

namespace Store

/-- The JSON tree of a host value, members as they come. -/
def hostTree (op : String) (host : HostValue) : Except Fault Json :=
  match host.toJson with
  | .ok tree => .ok tree
  | .error typeName => .error (.json op (.unplaced (.native typeName)))

/-- The JSON tree of a value, members as they come. -/
def writtenTree (store : Store) (op : String) (v : Value) : Except Fault Json := do
  hostTree op (← store.depart v)

/-- The JSON text of a value, without blanks. -/
def toJsonText (store : Store) (v : Value) : Except Fault String :=
  return (← store.writtenTree "to_json" v).compact

/-- The JSON text of a value, with one element a line. The spaces of one level are laid out before
anything is written, so there has to be room for them whether the text has use for them or not. -/
def toJsonPretty (store : Store) (indent : Nat) (v : Value) : Except Fault String := do
  let host ← store.depart v
  if store.hasRoom indent then
    let tree ← hostTree "to_json" host
    if store.hasRoom (tree.pretty indent).utf8ByteSize then return tree.pretty indent
    else throw .exhausted
  else throw .exhausted

/-- The tree that a typed receiver is given for a value. -/
def toTree (store : Store) (v : Value) : Except Fault Json :=
  return (← store.writtenTree "from_value" v).normalize

/-- What a typed receiver holds of a value, as a tree. -/
def readTyped (store : Store) (schema : Schema) (v : Value) : Except Fault Json := do
  match schema.read (← store.toTree v) with
  | .ok tree => return tree
  | .error complaint => throw (.json "from_value" (.unplaced complaint))

/-- The field that an entry of a dict becomes, whose key has to be a text. -/
def fieldOfEntry (store : Store) : Value × Value → Except Fault (String × Value)
  | (.string name, v) => return (name, v)
  | (key, _) => throw (.shape "to_struct" ⟨store.typeName key, "string field name"⟩)

end Store

namespace Op

/-- The result of a step that only reads. -/
def ofExcept {α : Type} : Except Fault α → Op α
  | .ok a => return a
  | .error fault => throw fault

@[simp]
theorem runOn_ofExcept {α : Type} {s : Store} (result : Except Fault α) :
    (ofExcept result).runOn s = (result, s) := by
  cases result <;> rfl

/-- The value of a JSON text. -/
def fromJsonText (text : String) : Op Value := do
  match Json.parse text with
  | .ok tree => (HostValue.ofJson tree).arrive
  | .error fault => throw (.json "from_json" fault)

theorem runOn_fromJsonText {s : Store} {text : String} {tree : Json}
    (parsed : Json.parse text = .ok tree) :
    (fromJsonText text).runOn s = (HostValue.ofJson tree).arrive.runOn s := by
  rw [fromJsonText, parsed]

/-- The dict of a JSON text, which has to be an object. -/
def dictFromJsonText (text : String) : Op Ref := do
  let v ← fromJsonText text
  let store ← get
  match store.unpack .dict v with
  | .ok dict => return dict
  | .error mismatch => throw (.shape "from_json" mismatch)

/-- The value of what a typed sender gives, as a host value. -/
def fromTyped (host : HostValue) : Op Value := do
  match host.toJson with
  | .ok tree => (HostValue.ofJson tree.normalize).arrive
  | .error typeName => throw (.json "to_value" (.unplaced (.native typeName)))

/-- The record of what a typed sender gives, which has to be an object. -/
def recordFromTyped (tag : String) (host : HostValue) : Op Value := do
  let v ← fromTyped host
  let store ← get
  match store.unpack .dict v with
  | .error mismatch => throw (.shape "to_struct" mismatch)
  | .ok dict =>
    let fields ← ofExcept ((store.dictEntries dict).mapM store.fieldOfEntry)
    newRecord (.string tag) fields

end Op
end Interchange
