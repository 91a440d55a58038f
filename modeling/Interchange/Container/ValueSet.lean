import Interchange.Container.Dict

/-!
# Sets

Hashable values, pairwise unequal, in the order in which they were entered.
-/

namespace Interchange

/-- Is an equal value among the items? For a look-up that ends. -/
def Store.isAmong (store : Store) (v : Value) (items : List Value) : Bool :=
  items.any fun item => store.equals v item

namespace ValueSet

/-- A new empty set. -/
def alloc : Op Ref := Op.alloc (.set [] false)

/-- The elements of a set cell; any other cell has none. -/
def itemsOf : Cell → List Value
  | .set items _ => items
  | _ => []

def items (set : Ref) : Op (List Value) := return itemsOf (← Op.cell set)

def size (set : Ref) : Op Nat := return (← items set).length

/-- Enters a value, and says whether it was not there before. -/
def insert (set : Ref) (v : Value) : Op Bool := do
  Op.checkHashable v
  match ← Op.cell set with
  | .set items false =>
    Op.checkEnds v items
    if (← get).isAmong v items then return false
    Op.write set (.set (items ++ [v]) false)
    return true
  | _ => throw (.frozen "insert" "set")

def contains (set : Ref) (v : Value) : Op Bool := do
  Op.checkHashable v
  let items ← items set
  Op.checkEnds v items
  return (← get).isAmong v items

/-- A new set of values. -/
def ofItems (values : List Value) : Op Ref := do
  let set ← alloc
  values.forM fun v => do let _ ← insert set v
  return set

/-! ## Running -/

theorem runOn_insert {s : Store} (set : Ref) (v : Value) : (insert set v).runOn s =
    match s.checkHashable v, s.cell set with
    | .ok _, .set items false =>
      if s.lookUpEnds v items then
        if s.isAmong v items then (.ok false, s)
        else (.ok true, s.write set (.set (items ++ [v]) false))
      else (.error .endless, s)
    | .ok _, _ => (.error (.frozen "insert" "set"), s)
    | .error fault, _ => (.error fault, s) := by
  rw [insert, Op.runOn_bind, Op.runOn_checkHashable]
  cases s.checkHashable v with
  | error fault => rfl
  | ok _ =>
    dsimp only
    rw [Op.runOn_bind_of_ok (Op.runOn_cell set)]
    cases s.cell set with
    | set items frozen =>
      cases frozen with
      | true => rfl
      | false =>
        dsimp only
        rw [Op.runOn_checkEnds, Op.runOn_bind_of_ok Op.runOn_get]
        cases s.isAmong v items <;> rfl
    | _ => rfl

end ValueSet
end Interchange
