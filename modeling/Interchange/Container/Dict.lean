import Interchange.Op

/-!
# Dicts

Mappings from hashable keys, in the order in which the keys were entered. Writing under a key that
equals one that is there keeps that key and its place. The keys of a dict are pairwise unequal.

A look-up compares a key with those that are there, in their order, up to the first that is equal
(`Store.findKey?`). Where a comparison on the way has no end, the operation has none, either
(`Op.checkEnds`). A table by hash answers the same and compares fewer keys. It differs where the
hashes of equal keys differ, which is the case for records that have their fields in different
orders, and it gets past an endless comparison when the hashes tell the two keys apart.
-/

namespace Interchange

namespace Store

/-- The entry with the first equal key, for a look-up that ends. -/
def findKey? (store : Store) (key : Value) (entries : List (Value × Value)) :
    Option (Value × Value) :=
  entries.find? fun entry => store.equals key entry.1

/-- The value under an equal key. -/
def lookup? (store : Store) (key : Value) (entries : List (Value × Value)) : Option Value :=
  (store.findKey? key entries).map Prod.snd

/-- The entries with a value under a key: in place of the one under an equal key, or at the end. -/
def putEntry (store : Store) (key value : Value) : List (Value × Value) → List (Value × Value)
  | [] => [(key, value)]
  | (other, old) :: rest =>
    if store.equals key other then (other, value) :: rest
    else (other, old) :: putEntry store key value rest

/-- The entries without the one under an equal key. -/
def eraseEntry (store : Store) (key : Value) (entries : List (Value × Value)) :
    List (Value × Value) :=
  entries.eraseP fun entry => store.equals key entry.1

end Store

namespace Dict

/-- A new empty dict. -/
def alloc : Op Ref := Op.alloc (.dict [] false)

def entries (dict : Ref) : Op (List (Value × Value)) := return (← get).dictEntries dict

def keys (dict : Ref) : Op (List Value) := return (← entries dict).map Prod.fst

def values (dict : Ref) : Op (List Value) := return (← entries dict).map Prod.snd

def size (dict : Ref) : Op Nat := return (← entries dict).length

/-- The entries of a dict that may be changed. -/
def mutableEntries (op : String) (dict : Ref) : Op (List (Value × Value)) := do
  match ← Op.cell dict with
  | .dict entries false => return entries
  | _ => throw (.frozen op "dict")

/-- The value under a key, which must be hashable. -/
def get? (dict : Ref) (key : Value) : Op (Option Value) := do
  Op.checkHashable key
  let entries ← entries dict
  Op.checkEnds key (entries.map Prod.fst)
  return (← get).lookup? key entries

/-- The value under a text, which any comparison ends with. -/
def getText? (dict : Ref) (name : String) : Op (Option Value) :=
  return (← get).lookup? (.string name) (← entries dict)

def contains (dict : Ref) (key : Value) : Op Bool := return (← get? dict key).isSome

/-- Writes a value under a key. -/
def insert (dict : Ref) (key value : Value) : Op Unit := do
  Op.checkHashable key
  let entries ← mutableEntries "insert" dict
  Op.checkEnds key (entries.map Prod.fst)
  Op.write dict (.dict ((← get).putEntry key value entries) false)

/-- Takes the entry of a key away and answers its value; the others keep their order. -/
def remove (dict : Ref) (key : Value) : Op (Option Value) := do
  Op.checkHashable key
  let entries ← mutableEntries "delete" dict
  Op.checkEnds key (entries.map Prod.fst)
  let store ← get
  Op.write dict (.dict (store.eraseEntry key entries) false)
  return store.lookup? key entries

def clear (dict : Ref) : Op Unit := do
  let _ ← mutableEntries "clear" dict
  Op.write dict (.dict [] false)

/-- Writes entries one after the other. -/
def insertAll (dict : Ref) (entries : List (Value × Value)) : Op Unit :=
  entries.forM fun entry => insert dict entry.1 entry.2

/-- A new dict of entries, the last of each key. -/
def ofEntries (entries : List (Value × Value)) : Op Ref := do
  let dict ← alloc
  insertAll dict entries
  return dict

/-- A new dict of the same entries, not frozen. -/
def clone (dict : Ref) : Op Ref := do Op.alloc (.dict (← entries dict) false)

/-! ## Running -/

section Running

variable {s : Store} (dict : Ref) (key value : Value)

theorem runOn_entries : (entries dict).runOn s = (.ok (s.dictEntries dict), s) := rfl

theorem runOn_clone : (clone dict).runOn s =
    (.ok (s.alloc (.dict (s.dictEntries dict) false)).1,
      (s.alloc (.dict (s.dictEntries dict) false)).2) := rfl

theorem runOn_mutableEntries (op : String) :
    (mutableEntries op dict).runOn s = match s.cell dict with
      | .dict entries false => (.ok entries, s)
      | _ => (.error (.frozen op "dict"), s) := by
  rw [mutableEntries, Op.runOn_bind, Op.runOn_cell]
  cases s.cell dict with
  | dict _ frozen => cases frozen <;> rfl
  | _ => rfl

theorem runOn_get? : (get? dict key).runOn s = match s.checkHashable key with
    | .ok _ =>
      if s.lookUpEnds key ((s.dictEntries dict).map Prod.fst) then
        (.ok (s.lookup? key (s.dictEntries dict)), s)
      else (.error .endless, s)
    | .error fault => (.error fault, s) := by
  rw [get?, Op.runOn_bind, Op.runOn_checkHashable]
  cases s.checkHashable key with
  | error fault => rfl
  | ok _ =>
    dsimp only
    rw [Op.runOn_bind_of_ok (runOn_entries dict), Op.runOn_checkEnds]
    rfl

/-- An operation on the entries of a dict that may be changed, under a key. -/
theorem runOn_mutable {α : Type} (op : String) (next : List (Value × Value) → Op α) :
    (do
      Op.checkHashable key
      let entries ← mutableEntries op dict
      Op.checkEnds key (entries.map Prod.fst)
      next entries : Op α).runOn s =
    match s.checkHashable key, s.cell dict with
    | .ok _, .dict entries false =>
      if s.lookUpEnds key (entries.map Prod.fst) then (next entries).runOn s
      else (.error .endless, s)
    | .ok _, _ => (.error (.frozen op "dict"), s)
    | .error fault, _ => (.error fault, s) := by
  rw [Op.runOn_bind, Op.runOn_checkHashable]
  cases s.checkHashable key with
  | error fault => rfl
  | ok _ =>
    dsimp only
    rw [Op.runOn_bind, runOn_mutableEntries]
    cases s.cell dict with
    | dict entries frozen =>
      cases frozen with
      | true => rfl
      | false => exact Op.runOn_checkEnds key _
    | _ => rfl

theorem runOn_insert : (insert dict key value).runOn s =
    match s.checkHashable key, s.cell dict with
    | .ok _, .dict entries false =>
      if s.lookUpEnds key (entries.map Prod.fst) then
        (.ok (), s.write dict (.dict (s.putEntry key value entries) false))
      else (.error .endless, s)
    | .ok _, _ => (.error (.frozen "insert" "dict"), s)
    | .error fault, _ => (.error fault, s) := runOn_mutable dict key "insert" _

theorem runOn_remove : (remove dict key).runOn s =
    match s.checkHashable key, s.cell dict with
    | .ok _, .dict entries false =>
      if s.lookUpEnds key (entries.map Prod.fst) then
        (.ok (s.lookup? key entries), s.write dict (.dict (s.eraseEntry key entries) false))
      else (.error .endless, s)
    | .ok _, _ => (.error (.frozen "delete" "dict"), s)
    | .error fault, _ => (.error fault, s) := runOn_mutable dict key "delete" _

/-- Reading changes nothing. -/
theorem runOn_get?_snd : ((get? dict key).runOn s).2 = s := by
  rw [runOn_get?]
  split
  · split <;> rfl
  · rfl

theorem runOn_get?_of_ends (hashable : s.checkHashable key = .ok ())
    (ends : s.lookUpEnds key ((s.dictEntries dict).map Prod.fst) = true) :
    (get? dict key).runOn s = (.ok (s.lookup? key (s.dictEntries dict)), s) := by
  rw [runOn_get?, hashable]
  exact if_pos ends

theorem runOn_insert_of_ends {entries : List (Value × Value)}
    (cell : s.cell dict = .dict entries false) (hashable : s.checkHashable key = .ok ())
    (ends : s.lookUpEnds key (entries.map Prod.fst) = true) : (insert dict key value).runOn s =
      (.ok (), s.write dict (.dict (s.putEntry key value entries) false)) := by
  rw [runOn_insert, hashable, cell]
  exact if_pos ends

theorem runOn_clear : (clear dict).runOn s = match s.cell dict with
    | .dict _ false => (.ok (), s.write dict (.dict [] false))
    | _ => (.error (.frozen "clear" "dict"), s) := by
  rw [clear, Op.runOn_bind, runOn_mutableEntries]
  cases s.cell dict with
  | dict _ frozen => cases frozen <;> rfl
  | _ => rfl

end Running

end Dict
end Interchange
