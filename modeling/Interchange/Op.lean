import Interchange.Fault
import Interchange.Store.Display
import Interchange.Store.Equality
import Interchange.Store.Freezing
import Interchange.Store.Hashable

/-!
# Operations on a store

An operation reads and changes a store and has a result or a fault. What it has changed before a
fault stays changed.
-/

namespace Interchange

abbrev Op := ExceptT Fault (StateM Store)

namespace Op

/-- Runs an operation on a store. -/
def runOn {α : Type} (op : Op α) (store : Store) : Except Fault α × Store := op.run store

/-- The cell at a reference. -/
def cell (ref : Ref) : Op Cell := return (← get).cell ref

/-- A new cell, as a reference. -/
def alloc (cell : Cell) : Op Ref := modifyGet (·.alloc cell)

/-- A new cell, as a value. -/
def new (cell : Cell) : Op Value := return .object (← alloc cell)

def write (ref : Ref) (cell : Cell) : Op Unit := modify (·.write ref cell)

/-- Freezes all that a value leads to. -/
def freeze (v : Value) : Op Unit := modify (·.freeze v)

/-- Passes a hashable value. -/
def checkHashable (v : Value) : Op Unit := do
  liftExcept ((← get).checkHashable v)
where
  liftExcept : Except Fault Unit → Op Unit
    | .ok _ => pure ()
    | .error fault => throw fault

/-- Passes a look-up that comes to an end. -/
def checkEnds (key : Value) (keys : List Value) : Op Unit := do
  unless (← get).lookUpEnds key keys do throw .endless

/-- The display of a value. -/
def display (v : Value) : Op String := do
  match (← get).display? v with
  | some text => return text
  | none => throw .endless

/-- A string as it is, and any other value as it is displayed. -/
def text (v : Value) : Op String := do
  match (← get).text? v with
  | some text => return text
  | none => throw .endless

/-! ## Running -/

section Running

variable {α β : Type} {op : Op α} {next : α → Op β} {s t : Store}

@[simp]
theorem runOn_pure (a : α) : (pure a : Op α).runOn s = (.ok a, s) := rfl

@[simp]
theorem runOn_throw (fault : Fault) : (throw fault : Op α).runOn s = (.error fault, s) := rfl

@[simp]
theorem runOn_get : (get : Op Store).runOn s = (.ok s, s) := rfl

@[simp]
theorem runOn_cell (ref : Ref) : (cell ref).runOn s = (.ok (s.cell ref), s) := rfl

@[simp]
theorem runOn_alloc (c : Cell) : (alloc c).runOn s = (.ok (s.alloc c).1, (s.alloc c).2) := rfl

@[simp]
theorem runOn_new (c : Cell) :
    (new c).runOn s = (.ok (.object (s.alloc c).1), (s.alloc c).2) := rfl

@[simp]
theorem runOn_write (ref : Ref) (c : Cell) : (write ref c).runOn s = (.ok (), s.write ref c) := rfl

@[simp]
theorem runOn_checkHashable (v : Value) :
    (checkHashable v).runOn s = (s.checkHashable v, s) := by
  change (checkHashable.liftExcept (s.checkHashable v)).runOn s = _
  rcases s.checkHashable v with _ | _ <;> rfl

/-- What follows an operation runs on the store that the operation leaves, unless it failed. -/
theorem runOn_bind : (op >>= next).runOn s = match op.runOn s with
    | (.ok a, t) => (next a).runOn t
    | (.error fault, t) => (.error fault, t) := by
  change (StateT.bind (m := Id) op (ExceptT.bindCont next)) s = _
  unfold StateT.bind
  rcases h : op.runOn s with ⟨_ | _, t⟩
  all_goals
    change op s = _ at h
    rw [h]
    rfl

theorem runOn_bind_of_ok {a : α} (first : op.runOn s = (.ok a, t)) :
    (op >>= next).runOn s = (next a).runOn t := by
  rw [runOn_bind, first]

/-- What follows a look-up runs when the look-up comes to an end. -/
theorem runOn_checkEnds (key : Value) (keys : List Value) :
    (do checkEnds key keys; op : Op α).runOn s =
      if s.lookUpEnds key keys then op.runOn s else (.error .endless, s) := by
  have checked : (checkEnds key keys).runOn s =
      (if s.lookUpEnds key keys = true then pure () else throw .endless : Op Unit).runOn s := rfl
  rw [runOn_bind, checked]
  by_cases ends : s.lookUpEnds key keys = true
  · rw [if_pos ends, if_pos ends]
    rfl
  · rw [if_neg ends, if_neg ends]
    rfl

/-- An operation in two steps that succeeds has succeeded at both. -/
theorem steps_of_bind {b : β} (h : (op >>= next).runOn s = (.ok b, t)) :
    ∃ a m, op.runOn s = (.ok a, m) ∧ (next a).runOn m = (.ok b, t) := by
  rw [runOn_bind] at h
  rcases first : op.runOn s with ⟨fault | a, m⟩
  · rw [first] at h
    cases h
  · rw [first] at h
    exact ⟨a, m, rfl, h⟩

theorem alloc_ok {c : Cell} {ref : Ref} (h : (alloc c).runOn s = (.ok ref, t)) :
    ref = (s.alloc c).1 ∧ t = (s.alloc c).2 := by
  rw [runOn_alloc] at h
  obtain ⟨same, rfl⟩ := Prod.mk.inj h
  exact ⟨(Except.ok.inj same).symm, rfl⟩

theorem new_ok {c : Cell} {v : Value} (h : (new c).runOn s = (.ok v, t)) :
    v = .object (s.alloc c).1 ∧ t = (s.alloc c).2 := by
  rw [runOn_new] at h
  obtain ⟨same, rfl⟩ := Prod.mk.inj h
  exact ⟨(Except.ok.inj same).symm, rfl⟩

end Running

end Op
end Interchange
