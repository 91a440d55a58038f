import Interchange.Container.Dict
import Interchange.Container.ValueList

/-!
# From host values to values

Every host value but a native handle has a dynamic form. A handle presents itself, or is handed
over behind a proxy, or is refused. What was built before a refusal stays in the store, where
nothing refers to it.
-/

namespace Interchange

/-- The name of the conversion in faults. -/
def arrivalName : String := "marshal"

/-- A native handle as a value. -/
def Op.arriveNative (handle : Native) : Op Value := do
  if handle.isNil then throw (.typedNil arrivalName handle.typeName)
  match handle.presentation with
  | some (.ok v) => return v
  | some (.error message) => throw (.custom message)
  | none =>
    if handle.proxied then Op.new (.proxy handle)
    else throw (.unsupported arrivalName handle.typeName)

namespace HostValue

mutual

/-- The dynamic form of a host value. -/
def arrive : HostValue → Op Value
  | .null => return .nothing
  | .bool b => return .bool b
  | .int i => return .int i
  | .wide i => return .int i
  | .float x => return .float x
  | .string s => return .string s
  | .bytes b => return .bytes b
  | .time t => return .time t
  | .list items => do ValueList.new (← arriveItems items)
  | .map entries => do
    let dict ← Dict.alloc
    arriveEntries dict entries
    return .object dict
  | .pairs entries => do
    let dict ← Dict.alloc
    arrivePairs dict entries
    return .object dict
  | .native handle => Op.arriveNative handle

def arriveItems : List HostValue → Op (List Value)
  | [] => return []
  | item :: rest => do
    let v ← arrive item
    return v :: (← arriveItems rest)

def arriveEntries (dict : Ref) : List (String × HostValue) → Op Unit
  | [] => return ()
  | (name, item) :: rest => do
    let v ← arrive item
    Dict.insert dict (.string name) v
    arriveEntries dict rest

def arrivePairs (dict : Ref) : List (HostValue × HostValue) → Op Unit
  | [] => return ()
  | (key, item) :: rest => do
    let k ← arrive key
    let v ← arrive item
    Dict.insert dict k v
    arrivePairs dict rest

end

end HostValue
end Interchange
