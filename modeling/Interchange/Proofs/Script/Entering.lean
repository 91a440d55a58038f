import Interchange.Proofs.Crossing.Restoring
import Interchange.Script.Crossing

/-!
# Parts of an object

The value of an array is a new list of what is made of its elements (`ofObject_array`), and that of a
record a new dict, into which what is made of its properties is entered, one property after the other
(`ofObject_record`, `runIn_enterProperty`).
-/

namespace Interchange.Script

open HostValue Store

namespace Run

variable {α : Type} {a : α} {s : Session}

theorem runIn_onStore_of_ok {op : Op α} {store : Store} (ran : op.runOn s.store = (.ok a, store)) :
    (onStore op).runIn s = (.ok a, { s with store }) := by
  rw [runIn_onStore, ran]

end Run

open Run

variable {part : Datum → Run Value} {object : Object} {properties : List (WideString × Datum)}
  {property : WideString × Datum} {dict : Ref} {kept : List (Value × Value)} {v : Value}
  {s m t : Session}

/-! ## Lists and dicts -/

/-- A value of what is read as an element. -/
def elementValue (part : Datum → Run Value) (array : Object) (entry : Nat × Option Datum) :
    Run Value := do
  part (← element array entry.1 entry.2)

/-- A new list of the values of elements. -/
def listOf (part : Datum → Run Value) (array : Object) (items : List (Option Datum)) :
    Run Value := do
  let values ← (items.mapIdx (·, ·)).mapM (elementValue part array)
  Run.onStore (ValueList.new values)

/-- Enters a value of a property into a dict, under the name that is told. -/
def enterProperty (part : Datum → Run Value) (dict : Ref) (property : WideString × Datum) :
    Run PUnit := do
  let name ← tellName property.1
  let v ← part property.2
  Run.onStore (Dict.insert dict (.string name) v)

/-- A new dict of the values of properties. -/
def dictOf (part : Datum → Run Value) (properties : List (WideString × Datum)) : Run Value := do
  let dict ← Run.onStore Dict.alloc
  properties.forM (enterProperty part dict)
  return .object dict

theorem ofObject_array {items : List (Option Datum)} (isArray : object.nature = .array items) :
    ofObject part object = listOf part object items := by
  simp only [ofObject, isArray]
  rfl

theorem ofObject_record (isRecord : object.nature = .record) :
    ofObject part object = dictOf part object.properties := by
  simp only [ofObject, isRecord]
  rfl

theorem ofObject_globals (isGlobals : object.nature = .globals) :
    ofObject part object = dictOf part object.properties := by
  simp only [ofObject, isGlobals]
  rfl

/-! ## Entries -/

/-- What is made of a property is the last entry of its name. -/
theorem runIn_enterProperty {name : String} (told : property.1.beforeNul = .text name)
    (made : (part property.2).runIn s = (.ok v, m)) (here : m.store.cell dict = .dict kept false) :
    (enterProperty part dict property).runIn s = (.ok (), { m with
      store := m.store.write dict (.dict (enter scalarEqual (.string name) v kept) false) }) := by
  have first : (tellName property.1).runIn s = (.ok name, s) := by rw [tellName, told]; rfl
  refine (runIn_bind_of_ok first).trans
    ((runIn_bind_of_ok made).trans (runIn_onStore_of_ok ?_))
  rw [runOn_insert_scalar here rfl, putEntry_of_scalar rfl]

/-- A name is told or not, and nothing else happens. -/
theorem runIn_tellName (name : WideString) :
    (∃ told, name.beforeNul = .text told ∧ (tellName name).runIn s = (.ok told, s)) ∨
      ∃ index, (tellName name).runIn s = (.error (.engine (.illFormed index)), s) := by
  rw [tellName]
  cases told : name.beforeNul with
  | text text => exact .inl ⟨text, rfl, rfl⟩
  | broken units => exact .inr ⟨_, rfl⟩

/-- The properties are entered into a dict that is new. -/
theorem runIn_dictOf {result : Except Stop PUnit}
    (filled : (properties.forM (enterProperty part (s.store.alloc (.dict [] false)).1)).runIn
      { s with store := (s.store.alloc (.dict [] false)).2 } = (result, t)) :
    (dictOf part properties).runIn s =
      (result.map fun _ => .object (s.store.alloc (.dict [] false)).1, t) := by
  refine (runIn_bind_of_ok (runIn_onStore_of_ok (Op.runOn_alloc (.dict [] false)))).trans ?_
  rw [runIn_bind, filled]
  cases result with
  | error stop => rfl
  | ok _ => rfl

end Interchange.Script
