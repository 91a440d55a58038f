import Interchange.Store

/-!
# Freezing

A list, set, dict or mapping carries a flag; once it is set the contents stay as they are.
Freezing a value sets the flags of all that it leads to through elements, entries, fields, members
and a mapping's dict. It stops at a flag that is set already: what lies behind such a flag was
frozen with it.
-/

namespace Interchange.Store

/-- Freezes what a value leads to, from left to right and down to a depth. -/
def freezeWithin : Nat → Value → Store → Store
  | depth + 1, .object ref, store =>
    let freezeAll (items : List Value) (store : Store) : Store :=
      items.foldl (fun store item => freezeWithin depth item store) store
    match store.cell ref with
    | .list items false => freezeAll items (store.write ref (.list items true))
    | .set items false => freezeAll items (store.write ref (.set items true))
    | .dict entries false => freezeAll (entryParts entries) (store.write ref (.dict entries true))
    | .mapping name dict false =>
      let store := store.write ref (.mapping name dict true)
      match store.cell dict with
      | .dict entries false =>
        freezeAll (entryParts entries) (store.write dict (.dict entries true))
      | _ => store
    | .tuple items => freezeAll items store
    | .record _ fields => freezeAll (fields.map Prod.snd) store
    | .module _ members => freezeAll (members.map Prod.snd) store
    | .extension { attributes := some attributes, .. } =>
      freezeAll (attributes.values.map Prod.snd) store
    | _ => store
  | _, _, store => store

/-- Sets the flags of all that a value leads to. Between two flags a walk passes cells that never
change, so its depth is at most the square of the store's size. -/
def freeze (store : Store) (v : Value) : Store :=
  freezeWithin ((store.size + 2) * (store.size + 2)) v store

end Interchange.Store
