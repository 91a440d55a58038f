import Interchange.HostValue
import Interchange.Json.Printer

/-!
# Host values and JSON trees

Bytes are written as arrays and instants as texts. The name of a member is the key itself when it
is a text, and otherwise the key as it is written. A native handle has no JSON form.
-/

namespace Interchange.HostValue

/-- A float as a name of a member: positional, without a point where there is no fraction. -/
def nameLayout : Decimal.Layout where
  plainFrom := -400
  plainBelow := 400
  pointZero := false
  plusSign := false
  tie := .up
  candidates := .both
  nan := "NaN"
  positiveInfinity := "inf"
  negativeInfinity := "-inf"

/-- The name for a key with a given tree; one without a tree goes by its type. -/
def nameOf (key : HostValue) (tree : Except String Json) : String :=
  match key with
  | .string s => s
  | .null => "null"
  | .bool b => if b then "true" else "false"
  | .int i => toString i
  | .wide i => toString i
  | .float x => nameLayout.write x
  | key =>
    match tree with
    | .ok tree => tree.compact
    | .error _ => key.typeName

mutual

/-- The JSON tree of a host value, or the type of the first native handle in it. -/
def toJson : HostValue → Except String Json
  | .null => .ok .null
  | .bool b => .ok (.bool b)
  | .int i => .ok (.ofInt i)
  | .wide i => .ok (.ofInt i)
  | .float x => .ok (.ofBinary64 x)
  | .string s => .ok (.string s)
  | .bytes b => .ok (.array (b.map fun byte => .ofInt byte.toNat))
  | .time t => .ok (.string t.text)
  | .list items => return .array (← itemsToJson items)
  | .map entries => return .object (← entriesToJson entries)
  | .pairs entries => return .object (← pairsToJson entries)
  | .native handle => .error handle.typeName

def itemsToJson : List HostValue → Except String (List Json)
  | [] => .ok []
  | item :: rest => do
    let tree ← toJson item
    return tree :: (← itemsToJson rest)

def entriesToJson : List (String × HostValue) → Except String (List (String × Json))
  | [] => .ok []
  | (name, item) :: rest => do
    let tree ← toJson item
    return (name, tree) :: (← entriesToJson rest)

def pairsToJson : List (HostValue × HostValue) → Except String (List (String × Json))
  | [] => .ok []
  | (key, item) :: rest => do
    let name := nameOf key (toJson key)
    let tree ← toJson item
    return (name, tree) :: (← pairsToJson rest)

end

mutual

/-- The host form of a JSON tree. A decimal past the greatest float has none and becomes NaN. -/
def ofJson : Json → HostValue
  | .null => .null
  | .bool b => .bool b
  | .number n =>
    match n.meant with
    | .integer i => .ofInt i
    | n =>
      let x := n.toBinary64
      .float (if x.isFinite then x else .nan)
  | .string s => .string s
  | .array items => .list (ofJsonItems items)
  | .object members => ofEntries (ofJsonMembers members)

def ofJsonItems : List Json → List HostValue
  | [] => []
  | item :: rest => ofJson item :: ofJsonItems rest

def ofJsonMembers : List (String × Json) → List (String × HostValue)
  | [] => []
  | (name, item) :: rest => (name, ofJson item) :: ofJsonMembers rest

end

end Interchange.HostValue
