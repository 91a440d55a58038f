import Interchange.Store

/-!
# Equality of values

Two values are equal when no walk along corresponding parts finds a difference. The walk carries
the pairs of containers that it is inside of, and takes a pair it meets again as equal, so that
containers which contain themselves can be compared. Keys of dicts and elements of sets are looked
up by equality of their own, in a walk that starts afresh.

`equalWithin` has a depth; it answers `none` when the walk is longer than that. Within one walk
the pairs on the path differ, and a look-up that comes back to its own question inside its answer
never ends, so `depthBound` is enough for every comparison that ends at all.
-/

namespace Interchange.Store

/-- An integer equals a float of the same value; NaN equals NaN. -/
def scalarEqual : Value → Value → Bool
  | .nothing, .nothing => true
  | .bool a, .bool b => a == b
  | .int a, .int b => a == b
  | .float a, .float b => a.numEq b || (a.isNaN && b.isNaN)
  | .int a, .float b => b.integer? == some a
  | .float a, .int b => a.integer? == some b
  | .string a, .string b => a == b
  | .bytes a, .bytes b => a == b
  | .time a, .time b => a == b
  | _, _ => false

/-- Are the values of all pairs the same? -/
def samePairs (same : Value → Value → Option Bool) : List (Value × Value) → Option Bool
  | [] => some true
  | (a, b) :: rest => do
    if ← same a b then samePairs same rest else return false

/-- Do two sequences agree element by element? Sequences of different lengths are not gone through. -/
def sameItems (same : Value → Value → Option Bool) (as bs : List Value) : Option Bool :=
  if as.length = bs.length then samePairs same (as.zip bs) else some false

/-- The entry whose key is the first to answer the test. -/
def findEntry (test : Value → Option Bool) :
    List (Value × Value) → Option (Option (Value × Value))
  | [] => some none
  | (key, value) :: rest => do
    if ← test key then return some (key, value) else findEntry test rest

/-- Is there an element that answers the test? -/
def anyItem (test : Value → Option Bool) : List Value → Option Bool
  | [] => some false
  | item :: rest => do
    if ← test item then return true else anyItem test rest

/-- Has every entry a partner of an equal key, by `sameKey`, and an equal value, by `same`? -/
def entriesWithin (sameKey same : Value → Value → Option Bool) (others : List (Value × Value)) :
    List (Value × Value) → Option Bool
  | [] => some true
  | (key, value) :: rest => do
    match ← findEntry (sameKey key) others with
    | none => return false
    | some (_, other) =>
      if ← same value other then entriesWithin sameKey same others rest else return false

/-- Is every element among the others? -/
def itemsWithin (same : Value → Value → Option Bool) (others : List Value) :
    List Value → Option Bool
  | [] => some true
  | item :: rest => do
    if ← anyItem (same item) others then itemsWithin same others rest else return false

/-- Has every field a partner of the same name and an equal value? -/
def fieldsWithin (same : Value → Value → Option Bool) (others : List (String × Value)) :
    List (String × Value) → Option Bool
  | [] => some true
  | (name, value) :: rest =>
    match others.lookup name with
    | none => some false
    | some other => do
      if ← same value other then fieldsWithin same others rest else return false

/-- Equality of two cells, given equality of their parts: `same` inside the walk, `afresh` for
look-ups, and `met` for a pair that the walk is inside of already. -/
def cellsEqual (same afresh : Value → Value → Option Bool) (met : Bool) :
    Cell → Cell → Option Bool
  | .list as _, .list bs _ => if met then some true else sameItems same as bs
  | .tuple as, .tuple bs => if met then some true else sameItems same as bs
  | .dict as _, .dict bs _ =>
    if met then some true
    else if as.length = bs.length then entriesWithin afresh same bs as
    else some false
  | .set as _, .set bs _ =>
    if as.length = bs.length then itemsWithin afresh bs as else some false
  | .record tag fields, .record otherTag others =>
    if met then some true
    else do
      if ← same tag otherTag then
        if fields.length = others.length then fieldsWithin same others fields else return false
      else return false
  | _, _ => some false

/-- Equality by a walk of a bounded depth, inside the pairs of containers on `path`. -/
def equalWithin (store : Store) : Nat → List (Ref × Ref) → Value → Value → Option Bool
  | depth, path, .object r, .object s =>
    if r = s then some true
    else
      match depth with
      | 0 => none
      | depth + 1 =>
        let met := path.contains (r, s)
        cellsEqual (equalWithin store depth ((r, s) :: path)) (equalWithin store depth [])
          met (store.cell r) (store.cell s)
  | _, _, a, b => some (scalarEqual a b)

/-- A depth that no comparison needs to exceed. -/
def depthBound (store : Store) : Nat :=
  (store.size * store.size + 2) * (store.size * store.size + 2)

/-- Equality, or `none` when the comparison has no end. -/
def equal? (store : Store) (a b : Value) : Option Bool := equalWithin store store.depthBound [] a b

/-- Does the comparison find the two values equal? -/
def equals (store : Store) (a b : Value) : Bool := store.equal? a b == some true

/-- Does a look-up among keys come to an end? It stops at the first key that it finds equal, and gets
no further at a key whose comparison has no end. -/
def lookUpEnds (store : Store) (key : Value) (keys : List Value) : Bool :=
  (anyItem (store.equal? key) keys).isSome

end Interchange.Store
