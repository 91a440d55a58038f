import Interchange.Op

/-!
# Lists

Ordered sequences of values that can be changed until they are frozen.
-/

namespace Interchange.ValueList

/-- A new list. -/
def new (items : List Value) : Op Value := Op.new (.list items false)

/-- The elements of a list cell; any other cell has none. -/
def itemsOf : Cell → List Value
  | .list items _ => items
  | _ => []

def items (list : Ref) : Op (List Value) := return itemsOf (← Op.cell list)

/-- The elements of a list that may be changed. -/
def mutableItems (op : String) (list : Ref) : Op (List Value) := do
  match ← Op.cell list with
  | .list items false => return items
  | _ => throw (.frozen op "list")

def size (list : Ref) : Op Nat := return (← items list).length

def get? (list : Ref) (index : Nat) : Op (Option Value) := return (← items list)[index]?

/-- Adds an element at the end. -/
def push (list : Ref) (item : Value) : Op Unit := do
  let items ← mutableItems "append" list
  Op.write list (.list (items ++ [item]) false)

/-- Replaces the element at an index. The fault tells the index as a signed 64-bit number. -/
def set (list : Ref) (index : Nat) (item : Value) : Op Unit := do
  let items ← mutableItems "assign" list
  if index < items.length then Op.write list (.list (items.set index item) false)
  else throw (.indexOutOfRange ((index : Int).bmod 0x10000000000000000) items.length)

/-- Takes the last element away, if there is one. -/
def pop (list : Ref) : Op (Option Value) := do
  let items ← mutableItems "pop" list
  Op.write list (.list items.dropLast false)
  return items.getLast?

/-- A new list of the same elements, not frozen. -/
def clone (list : Ref) : Op Value := do new (← items list)

/-! ## Running -/

section Running

variable {s : Store} (list : Ref)

theorem runOn_mutableItems (op : String) :
    (mutableItems op list).runOn s = match s.cell list with
      | .list items false => (.ok items, s)
      | _ => (.error (.frozen op "list"), s) := by
  rw [mutableItems, Op.runOn_bind, Op.runOn_cell]
  cases s.cell list with
  | list _ frozen => cases frozen <;> rfl
  | _ => rfl

theorem runOn_push (item : Value) : (push list item).runOn s = match s.cell list with
    | .list items false => (.ok (), s.write list (.list (items ++ [item]) false))
    | _ => (.error (.frozen "append" "list"), s) := by
  rw [push, Op.runOn_bind, runOn_mutableItems]
  cases s.cell list with
  | list _ frozen => cases frozen <;> rfl
  | _ => rfl

theorem runOn_set (index : Nat) (item : Value) : (set list index item).runOn s =
    match s.cell list with
    | .list items false =>
      if index < items.length then (.ok (), s.write list (.list (items.set index item) false))
      else
        (.error (.indexOutOfRange ((index : Int).bmod 0x10000000000000000) items.length), s)
    | _ => (.error (.frozen "assign" "list"), s) := by
  rw [set, Op.runOn_bind, runOn_mutableItems]
  cases s.cell list with
  | list items frozen =>
    cases frozen with
    | true => rfl
    | false =>
      by_cases inside : index < items.length
      · simp [inside]
      · simp [inside]
  | _ => rfl

theorem runOn_pop : (pop list).runOn s = match s.cell list with
    | .list items false => (.ok items.getLast?, s.write list (.list items.dropLast false))
    | _ => (.error (.frozen "pop" "list"), s) := by
  rw [pop, Op.runOn_bind, runOn_mutableItems]
  cases s.cell list with
  | list _ frozen => cases frozen <;> rfl
  | _ => rfl

end Running

end Interchange.ValueList
