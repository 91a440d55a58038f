import Interchange.Fault
import Interchange.Store.Kind

/-!
# Hashable values

Only a hashable value may be a key of a dict or an element of a set: no list, dict or set, no tuple
and no record with such a part, no shared mapping and no proxy. The tag of a record is not looked
at. Tuples and records are never changed, so a chain of them is no longer than the store.
-/

namespace Interchange.Store

/-- Looks for what is not hashable, down to a depth. -/
def checkHashableWithin (store : Store) : Nat → Value → Except Fault Unit
  | depth, .object ref =>
    let unhashable : Except Fault Unit := .error (.unhashable (store.typeName (.object ref)))
    match store.cell ref with
    | .list _ _ => unhashable
    | .set _ _ => unhashable
    | .dict _ _ => unhashable
    | .mapping _ _ _ => unhashable
    | .proxy _ => unhashable
    | .extension e => if e.hashable then .ok () else unhashable
    | .tuple items =>
      match depth with
      | 0 => .ok ()
      | depth + 1 => items.forM (checkHashableWithin store depth)
    | .record _ fields =>
      match depth with
      | 0 => .ok ()
      | depth + 1 => fields.forM fun field => checkHashableWithin store depth field.2
    | _ => .ok ()
  | _, _ => .ok ()

/-- Passes a hashable value and names the type of the first part that is not. -/
def checkHashable (store : Store) (v : Value) : Except Fault Unit :=
  checkHashableWithin store store.size v

end Interchange.Store
