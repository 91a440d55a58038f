import Mathlib.Logic.Relation
import Interchange.Store.Freezing

/-!
# Marking

Freezing only sets flags. One call of the walk marks a cell (`Store.mark`), a mapping together with
its dict, and goes on to what the cell holds (`Store.pending`); `freezeWithin_object` is that one
step. From it follows that a frozen store differs from the store before in flags alone
(`freeze_flagged`), whatever the depth.
-/

namespace Interchange

namespace Cell

/-- A cell that can be frozen. -/
def isContainer : Cell → Bool
  | list _ _ => true
  | set _ _ => true
  | dict _ _ => true
  | mapping _ _ _ => true
  | _ => false

/-- A cell whose flag is set. -/
def isFrozen : Cell → Bool
  | list _ frozen => frozen
  | set _ frozen => frozen
  | dict _ frozen => frozen
  | mapping _ _ frozen => frozen
  | _ => false

/-- The cell with its flag set, if it has one. -/
def freeze : Cell → Cell
  | list items _ => list items true
  | set items _ => set items true
  | dict entries _ => dict entries true
  | mapping name ref _ => mapping name ref true
  | cell => cell

variable {c : Cell}

@[simp]
theorem freeze_freeze (c : Cell) : c.freeze.freeze = c.freeze := by cases c <;> rfl

@[simp]
theorem isContainer_freeze (c : Cell) : c.freeze.isContainer = c.isContainer := by cases c <;> rfl

theorem isFrozen_freeze (h : c.isContainer = true) : c.freeze.isFrozen = true := by
  cases c <;> first | rfl | cases h

theorem isContainer_of_isFrozen (h : c.isFrozen = true) : c.isContainer = true := by
  cases c <;> first | rfl | cases h

theorem freeze_of_not_container (h : c.isContainer = false) : c.freeze = c := by
  cases c <;> first | rfl | cases h

theorem freeze_of_isFrozen (h : c.isFrozen = true) : c.freeze = c := by
  cases c with
  | list _ frozen | set _ frozen | dict _ frozen | mapping _ _ frozen =>
    change frozen = true at h
    rw [h]
    rfl
  | _ => rfl

end Cell

namespace Store

/-- One store has the cells of another, some of them with their flags set. -/
structure Flagged (s t : Store) : Prop where
  size_eq : t.size = s.size
  cell : ∀ ref, t.cell ref = s.cell ref ∨ t.cell ref = (s.cell ref).freeze

variable {s t m : Store} {ref : Ref} {v : Value} {depth : Nat}

theorem Flagged.refl (s : Store) : Flagged s s := ⟨rfl, fun _ => .inl rfl⟩

theorem Flagged.trans (h : Flagged s m) (h' : Flagged m t) : Flagged s t where
  size_eq := h'.size_eq.trans h.size_eq
  cell := fun ref => by
    rcases h.cell ref with first | first <;> rcases h'.cell ref with next | next <;>
      simp [next, first]

/-- What does not depend on flags stays as it is. -/
theorem Flagged.congr {α : Type} {f : Cell → α} (h : Flagged s t) (same : ∀ c, f c.freeze = f c)
    (ref : Ref) : f (t.cell ref) = f (s.cell ref) := by
  rcases h.cell ref with unchanged | marked
  · rw [unchanged]
  · rw [marked, same]

theorem Flagged.of_isFrozen (h : Flagged s t) (frozen : (s.cell ref).isFrozen = true) :
    t.cell ref = s.cell ref := by
  rcases h.cell ref with same | marked
  · exact same
  · rw [marked, Cell.freeze_of_isFrozen frozen]

/-- Writing a cell back with its flag set. -/
theorem flagged_write (s : Store) (ref : Ref) : Flagged s (s.write ref (s.cell ref).freeze) where
  size_eq := size_write s ref _
  cell := fun other => by
    by_cases same : ref = other
    · subst same
      by_cases inside : ref.index < s.size
      · exact .inr (cell_write_self s _ inside)
      · left
        simp only [size] at inside
        simp [write, Store.cell, Array.getD_eq_getD_getElem?, Nat.not_lt.1 inside]
    · exact .inl (cell_write_other s _ same)

/-- The store after the walk has marked a cell that is not marked yet; a mapping is marked with its
dict. -/
def mark (s : Store) (ref : Ref) : Store :=
  match s.cell ref with
  | .list items false => s.write ref (.list items true)
  | .set items false => s.write ref (.set items true)
  | .dict entries false => s.write ref (.dict entries true)
  | .mapping name dict false =>
    let marked := s.write ref (.mapping name dict true)
    match marked.cell dict with
    | .dict entries false => marked.write dict (.dict entries true)
    | _ => marked
  | _ => s

/-- What the walk goes on to from a cell. -/
def pending (s : Store) (ref : Ref) : List Value :=
  match s.cell ref with
  | .list items false => items
  | .set items false => items
  | .dict entries false => entryParts entries
  | .mapping name dict false =>
    match (s.write ref (.mapping name dict true)).cell dict with
    | .dict entries false => entryParts entries
    | _ => []
  | .tuple items => items
  | .record _ fields => fields.map Prod.snd
  | .module _ members => members.map Prod.snd
  | .extension { attributes := some attributes, .. } => attributes.values.map Prod.snd
  | _ => []

/-- Freezes values from left to right. -/
def freezeEach (depth : Nat) (values : List Value) (s : Store) : Store :=
  values.foldl (fun s v => freezeWithin depth v s) s

/-- One step of the walk: it marks the cell and goes on to what the cell holds. -/
theorem freezeWithin_object (depth : Nat) (s : Store) (ref : Ref) :
    freezeWithin (depth + 1) (.object ref) s = freezeEach depth (s.pending ref) (s.mark ref) := by
  unfold freezeWithin mark pending freezeEach
  cases cell : s.cell ref with
  | list items frozen | set items frozen | dict entries frozen => cases frozen <;> rfl
  | mapping name dict frozen =>
    cases frozen with
    | true => rfl
    | false =>
      cases under : (s.write ref (.mapping name dict true)).cell dict with
      | dict entries frozen => cases frozen <;> simp [under]
      | _ => simp [under]
  | extension e =>
    obtain ⟨_, _, _, _, attributes, _, _⟩ := e
    cases attributes <;> rfl
  | tuple | record | module | function | proxy => rfl

theorem freezeWithin_zero : freezeWithin 0 v s = s := by
  cases v <;> rfl

theorem flagged_write_of_cell {c : Cell} (cell : s.cell ref = c) :
    Flagged s (s.write ref c.freeze) := by
  rw [← cell]
  exact flagged_write s ref

theorem mark_flagged (s : Store) (ref : Ref) : Flagged s (s.mark ref) := by
  unfold mark
  cases cell : s.cell ref with
  | list items frozen | set items frozen | dict entries frozen =>
    cases frozen with
    | true => exact .refl s
    | false => exact flagged_write_of_cell cell
  | mapping name dict frozen =>
    cases frozen with
    | true => exact .refl s
    | false =>
      have first : Flagged s (s.write ref (.mapping name dict true)) := flagged_write_of_cell cell
      cases under : (s.write ref (.mapping name dict true)).cell dict with
      | dict entries frozen =>
        cases frozen with
        | true => simpa [under] using first
        | false =>
          simp only [under]
          exact first.trans (flagged_write_of_cell under)
      | _ => simpa [under] using first
  | tuple | record | module | function | extension | proxy => exact .refl s

/-- What marking does to a store, freezing does to it, as long as it may be done repeatedly. -/
theorem freezeWithin_of_mark (relation : Store → Store → Prop) (refl : ∀ s, relation s s)
    (trans : ∀ s m t, relation s m → relation m t → relation s t)
    (marks : ∀ s ref, relation s (s.mark ref)) (depth : Nat) :
    ∀ (v : Value) (s : Store), relation s (freezeWithin depth v s) := by
  induction depth with
  | zero => exact fun v s => freezeWithin_zero ▸ refl s
  | succ depth ih =>
    have each (values : List Value) : ∀ s, relation s (freezeEach depth values s) := by
      induction values with
      | nil => exact refl
      | cons v rest next => exact fun s => trans s _ _ (ih v s) (next _)
    intro v s
    cases v with
    | object ref =>
      rw [freezeWithin_object]
      exact trans s _ _ (marks s ref) (each _ _)
    | nothing | bool | int | float | string | bytes | time => exact refl s

/-- Freezing sets flags and does nothing else. -/
theorem freezeWithin_flagged (depth : Nat) (v : Value) (s : Store) :
    Flagged s (freezeWithin depth v s) :=
  freezeWithin_of_mark Flagged .refl (fun _ _ _ => .trans) mark_flagged depth v s

theorem freeze_flagged (s : Store) (v : Value) : Flagged s (s.freeze v) :=
  freezeWithin_flagged _ v s

end Store
end Interchange
