import Interchange.Value
import Interchange.TextMap

/-!
# Host values

What the embedding side holds: trees of scalars, lists and maps, whose leaves may also be native
handles. A native handle is known by its identity; how it presents itself as a dynamic value is
part of the handle.
-/

namespace Interchange

/-- A handle of an object that only the embedding side understands. -/
structure Native where
  identity : Nat
  typeName : String
  /-- The handle refers to nothing. -/
  isNil : Bool
  /-- The object may be handed over as it is, behind a proxy. -/
  proxied : Bool
  /-- The object presents itself as a value, or fails to. -/
  presentation : Option (Except String Value)
  /-- The object is held in an optional place of its type. -/
  optional : Bool

inductive HostValue where
  | null
  | bool (value : Bool)
  /-- An integer of 64 bits. -/
  | int (value : Int)
  /-- An integer kept at full width. -/
  | wide (value : Int)
  | float (value : Binary64)
  | string (value : String)
  | bytes (value : List UInt8)
  | time (value : Instant)
  | list (items : List HostValue)
  /-- A map from texts, in ascending order of its names. -/
  | map (entries : List (String × HostValue))
  /-- A map from keys of any kind, in order. -/
  | pairs (entries : List (HostValue × HostValue))
  | native (handle : Native)

namespace HostValue

instance : Inhabited HostValue := ⟨null⟩

def typeName : HostValue → String
  | null => "null"
  | bool _ => "bool"
  | int _ => "i64"
  | wide _ => "BigInt"
  | float _ => "f64"
  | string _ => "String"
  | bytes _ => "Vec<u8>"
  | time _ => "DateTime<Utc>"
  | list _ => "Vec<HostValue>"
  | map _ => "BTreeMap<String, HostValue>"
  | pairs _ => "Vec<(HostValue, HostValue)>"
  | native handle => handle.typeName

/-- An integer of any size in its narrowest form. -/
def ofInt (i : Int) : HostValue := if Binary64.fitsInt64 i then int i else wide i

/-- The map of a list of entries, the last of each name. -/
def ofEntries (entries : List (String × HostValue)) : HostValue := map (TextMap.ofList entries)

def text? : HostValue → Option String
  | string s => some s
  | _ => none

def int? : HostValue → Option Int
  | int i => some i
  | _ => none

def entries? : HostValue → Option (List (String × HostValue))
  | map entries => some entries
  | _ => none

def items? : HostValue → Option (List HostValue)
  | list items => some items
  | _ => none

mutual

/-- Equality of host values. Floats are compared as numbers, so NaN differs from itself; native
handles are compared by identity. -/
def equals : HostValue → HostValue → Bool
  | null, null => true
  | bool a, bool b => a == b
  | int a, int b => a == b
  | wide a, wide b => a == b
  | float a, float b => a.numEq b
  | string a, string b => a == b
  | bytes a, bytes b => a == b
  | time a, time b => a == b
  | list a, list b => equalItems a b
  | map a, map b => equalEntries a b
  | pairs a, pairs b => equalPairs a b
  | native a, native b => a.identity == b.identity
  | _, _ => false

def equalItems : List HostValue → List HostValue → Bool
  | [], [] => true
  | a :: as, b :: bs => equals a b && equalItems as bs
  | _, _ => false

def equalEntries : List (String × HostValue) → List (String × HostValue) → Bool
  | [], [] => true
  | (n, a) :: as, (m, b) :: bs => n == m && equals a b && equalEntries as bs
  | _, _ => false

def equalPairs : List (HostValue × HostValue) → List (HostValue × HostValue) → Bool
  | [], [] => true
  | (k, a) :: as, (l, b) :: bs => equals k l && equals a b && equalPairs as bs
  | _, _ => false

end

end HostValue
end Interchange
