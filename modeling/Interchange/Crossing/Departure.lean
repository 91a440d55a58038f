import Interchange.Fault
import Interchange.Store.Kind

/-!
# From values to host values

A walk that carries the containers it is inside of. It refuses a part that is one of them, so it
ends on every store, and what it makes is the tree of all that the value leads to. Functions and
extensions without a host side are refused.
-/

namespace Interchange

namespace HostValue

/-- The map of entries whose keys are all texts. -/
def textEntries? : List (HostValue × HostValue) → Option (List (String × HostValue))
  | [] => some []
  | (.string name, item) :: rest => do return (name, item) :: (← textEntries? rest)
  | _ => none

/-- The map of entries: by name when all keys are texts, and else in order. -/
def ofPairs (entries : List (HostValue × HostValue)) : HostValue :=
  match textEntries? entries with
  | some named => ofEntries named
  | none => pairs entries

end HostValue

namespace Store

/-- The name of the conversion in faults. -/
def departureName : String := "unmarshal"

/-- The values of an extension's attributes, by name. A listed name without a value is passed
over; a failing look-up fails at the first name. -/
def attributeEntries (attributes : Attributes) : Except Fault (List (String × Value)) :=
  let names := attributes.values.map Prod.fst ++ attributes.ghosts
  match attributes.failure, names with
  | some message, _ :: _ => .error (.custom message)
  | _, names => .ok (names.filterMap fun name => (attributes.values.lookup name).map (name, ·))

/-- What a record's tag makes of the record, if it takes that over. -/
def tagDeparture? (store : Store) (tag : Value) : Option (Except Fault HostValue) :=
  match store.cellOf? tag with
  | some (.extension e) => e.departure.map (·.mapError .custom)
  | some (.proxy native) => some (.ok (.native native))
  | _ => none

/-- The host form of a cell, given that of its parts. -/
def departCell (store : Store) (typeName : String) (part : Value → Except Fault HostValue) :
    Cell → Except Fault HostValue
  | .list items _ => return .list (← items.mapM part)
  | .tuple items => return .list (← items.mapM part)
  | .set items _ => return .list (← items.mapM part)
  | .dict entries _ => dict entries
  | .record tag fields =>
    match store.tagDeparture? tag with
    | some result => result
    | none => named fields
  | .module _ members => named members
  | .mapping _ ref _ => dict (store.dictEntries ref)
  | .proxy native => .ok (.native native)
  | .extension e =>
    match e.departure with
    | some result => result.mapError .custom
    | none =>
      match e.attributes with
      | some attributes => do named (← attributeEntries attributes)
      | none => .error (.unsupported departureName typeName)
  | .function _ => .error (.unsupported departureName typeName)
where
  dict (entries : List (Value × Value)) : Except Fault HostValue :=
    return .ofPairs (← entries.mapM fun entry => return (← part entry.1, ← part entry.2))
  named (entries : List (String × Value)) : Except Fault HostValue :=
    return .ofEntries (← entries.mapM fun entry => return (entry.1, ← part entry.2))

/-- The host form of a value, inside the containers on `path`. A path longer than the store holds a
container twice, so the depth never runs out when it starts above the store's size. -/
def departWithin (store : Store) : Nat → List Ref → Value → Except Fault HostValue
  | _, _, .nothing => .ok .null
  | _, _, .bool b => .ok (.bool b)
  | _, _, .int i => .ok (.ofInt i)
  | _, _, .float x => .ok (.float x)
  | _, _, .string s => .ok (.string s)
  | _, _, .bytes b => .ok (.bytes b)
  | _, _, .time t => .ok (.time t)
  | depth, path, .object ref =>
    let typeName := store.typeName (.object ref)
    match depth with
    | 0 => .error .endless
    | depth + 1 =>
      let path := ref :: path
      let part (v : Value) : Except Fault HostValue :=
        if v.identity?.any path.contains then .error (.cyclic departureName typeName)
        else departWithin store depth path v
      store.departCell typeName part (store.cell ref)

/-- The host form of a value. -/
def depart (store : Store) (v : Value) : Except Fault HostValue :=
  store.departWithin (store.size + 1) [] v

/-- The host form of a value that may be missing. -/
def departOptional (store : Store) : Option Value → Except Fault HostValue
  | some v => store.depart v
  | none => .error (.nil departureName)

end Store
end Interchange
