import Interchange.Store

/-!
# Kinds of values

The type name of a value, as messages have it, and whether the value counts as true.
-/

namespace Interchange.Store

/-- The entries of the dict in a cell; any other cell has none. -/
def dictEntries (store : Store) (ref : Ref) : List (Value × Value) :=
  match store.cell ref with
  | .dict entries _ => entries
  | _ => []

def cellTypeName : Cell → String
  | .list _ _ => "list"
  | .tuple _ => "tuple"
  | .set _ _ => "set"
  | .dict _ _ => "dict"
  | .record _ _ => "struct"
  | .module _ _ => "module"
  | .function f => f.typeName
  | .mapping name _ _ => name
  | .extension e => e.typeName
  | .proxy native => native.typeName

def typeName (store : Store) : Value → String
  | .nothing => "NoneType"
  | .bool _ => "bool"
  | .int _ => "int"
  | .float _ => "float"
  | .string _ => "string"
  | .bytes _ => "bytes"
  | .time _ => "time"
  | .object ref => cellTypeName (store.cell ref)

/-- Zero, NaN excepted, and whatever is empty counts as false. -/
def truth (store : Store) : Value → Bool
  | .nothing => false
  | .bool b => b
  | .int i => i != 0
  | .float x => !x.isZero
  | .string s => s != ""
  | .bytes b => !b.isEmpty
  | .time _ => true
  | .object ref =>
    match store.cell ref with
    | .list items _ => !items.isEmpty
    | .tuple items => !items.isEmpty
    | .set items _ => !items.isEmpty
    | .dict entries _ => !entries.isEmpty
    | .mapping _ dict _ => !(store.dictEntries dict).isEmpty
    | .extension e => e.truth
    | _ => true

end Interchange.Store
