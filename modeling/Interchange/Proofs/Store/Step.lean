import Interchange.Container.ValueSet
import Interchange.Proofs.Store.Marking

/-!
# Steps of a store

All that ever happens to a store is a sequence of few steps (`Store.Step`): a new cell is added, a
container that is not frozen gets other contents, or a value is frozen. An invariant of stores is
shown once for each of them. Every step lets a cell continue (`Cell.Continues`): what is frozen and
what is no container stays the cell that it is, and a container stays one of its kind.
-/

namespace Interchange

/-! ## What cells hold -/

/-- The values among the operands of an edit. -/
def Edit.operands : Edit → List Value
  | insert key value => [key, value]
  | insertSelf key => [key]
  | remove key => [key]
  | lookup key => [key]
  | increment key => [key]
  | clear => []
  | size => []
  | freeze => []
  | display => []
  | unknown _ => []

/-- The values that a routine brings along. -/
def Routine.operands : Routine → List Value
  | constant v => [v]
  | edits steps => steps.flatMap Edit.operands
  | method mapping _ => [.object mapping]
  | failure _ => []
  | argument _ => []
  | gather => []
  | library _ => []

/-- The values of an extension's attributes. -/
def Extension.attributeValues (e : Extension) : List Value :=
  match e.attributes with
  | some attributes => attributes.values.map Prod.snd
  | none => []

/-- All values that a cell holds, looked into or not. -/
def Cell.held : Cell → List Value
  | list items _ => items
  | tuple items => items
  | set items _ => items
  | dict entries _ => entryParts entries
  | record tag fields => tag :: fields.map Prod.snd
  | module _ members => members.map Prod.snd
  | function f => f.routine.operands
  | mapping _ ref _ => [.object ref]
  | extension e => e.attributeValues ++ e.contents.toList
  | proxy _ => []

/-- The names in a cell: of the fields of a record, or of the members of a module. -/
def Cell.names : Cell → List String
  | record _ fields => fields.map Prod.fst
  | module _ members => members.map Prod.fst
  | _ => []

/-- How a cell may go on: a container that is not frozen as one of its kind, and every other cell as
it is. -/
def Cell.Continues (c d : Cell) : Prop :=
  match c with
  | list _ false => ∃ items frozen, d = list items frozen
  | set _ false => ∃ items frozen, d = set items frozen
  | .dict _ false => ∃ entries frozen, d = .dict entries frozen
  | mapping name ref false => ∃ frozen, d = mapping name ref frozen
  | c => d = c

namespace Cell

variable {c d e : Cell}

@[simp]
theorem held_freeze (c : Cell) : c.freeze.held = c.held := by cases c <;> rfl

theorem held_of_parts {v : Value} (part : v ∈ c.parts) : v ∈ c.held := by
  cases c <;> first | exact part | cases part

/-- Two containers of one kind; of mappings, with one name and one dict. -/
inductive Alike : Cell → Cell → Prop
  | list {items others : List Value} {frozen flag : Bool} :
      Alike (.list items frozen) (.list others flag)
  | set {items others : List Value} {frozen flag : Bool} :
      Alike (.set items frozen) (.set others flag)
  | dict {entries others : List (Value × Value)} {frozen flag : Bool} :
      Alike (.dict entries frozen) (.dict others flag)
  | mapping {name : String} {ref : Ref} {frozen flag : Bool} :
      Alike (.mapping name ref frozen) (.mapping name ref flag)

theorem Alike.trans (h : c.Alike d) (h' : d.Alike e) : c.Alike e := by
  cases h <;> cases h' <;> constructor

theorem Alike.isContainer_eq (h : c.Alike d) : d.isContainer = c.isContainer := by
  cases h <;> rfl

theorem alike_freeze (container : c.isContainer = true) : c.Alike c.freeze := by
  cases c with
  | list | set | dict | mapping => constructor
  | _ => cases container

/-- A cell goes on as it is, or without a flag as a container of its kind. -/
theorem continues_iff : c.Continues d ↔ d = c ∨ c.isFrozen = false ∧ c.Alike d := by
  have frozen {c : Cell} (h : c.isFrozen = true) :
      d = c ↔ d = c ∨ c.isFrozen = false ∧ c.Alike d := by
    simp [h]
  cases c with
  | list items flag | set items flag | dict items flag =>
    cases flag with
    | true => exact frozen rfl
    | false =>
      constructor
      · rintro ⟨others, flag, rfl⟩
        exact .inr ⟨rfl, by constructor⟩
      · rintro (rfl | ⟨-, alike⟩)
        · exact ⟨items, false, rfl⟩
        · cases alike
          exact ⟨_, _, rfl⟩
  | mapping name ref flag =>
    cases flag with
    | true => exact frozen rfl
    | false =>
      constructor
      · rintro ⟨flag, rfl⟩
        exact .inr ⟨rfl, .mapping⟩
      · rintro (rfl | ⟨-, alike⟩)
        · exact ⟨false, rfl⟩
        · cases alike
          exact ⟨_, rfl⟩
  | tuple | record | module | function | extension | proxy =>
    refine ⟨fun same => .inl same, ?_⟩
    rintro (same | ⟨-, alike⟩)
    · exact same
    · cases alike

theorem Continues.refl (c : Cell) : c.Continues c := continues_iff.2 (.inl rfl)

theorem continues_freeze (c : Cell) : c.Continues c.freeze := by
  refine continues_iff.2 ?_
  cases frozen : c.isFrozen with
  | true => exact .inl (freeze_of_isFrozen frozen)
  | false =>
    cases container : c.isContainer with
    | true => exact .inr ⟨rfl, alike_freeze container⟩
    | false => exact .inl (freeze_of_not_container container)

theorem Continues.eq_of_isFrozen (h : c.Continues d) (frozen : c.isFrozen = true) : d = c := by
  rcases continues_iff.1 h with same | ⟨loose, -⟩
  · exact same
  · rw [frozen] at loose
    cases loose

theorem Continues.eq_of_not_container (h : c.Continues d) (plain : c.isContainer = false) :
    d = c := by
  rcases continues_iff.1 h with same | ⟨-, alike⟩
  · exact same
  · cases alike <;> cases plain

theorem Continues.trans (h : c.Continues d) (h' : d.Continues e) : c.Continues e := by
  rcases continues_iff.1 h with rfl | ⟨loose, alike⟩
  · exact h'
  · refine continues_iff.2 (.inr ⟨loose, ?_⟩)
    rcases continues_iff.1 h' with rfl | ⟨-, alike'⟩
    · exact alike
    · exact alike.trans alike'

theorem Continues.isContainer_eq (h : c.Continues d) : d.isContainer = c.isContainer := by
  rcases continues_iff.1 h with rfl | ⟨-, alike⟩
  · rfl
  · exact alike.isContainer_eq

end Cell

namespace Store

/-- A store has a value: a scalar, or one of its cells. -/
def Has (store : Store) (v : Value) : Prop := ∀ ref, v = .object ref → ref.index < store.size

/-- A store has whatever its cells hold. -/
def Closed (store : Store) : Prop := ∀ ref, ∀ v ∈ (store.cell ref).held, store.Has v

/-- A cell as it may be added: not frozen, and empty where entering has a condition, unless it is a
dict with the entries of another. A mapping is added right after its dict. -/
def Fresh (store : Store) : Cell → Prop
  | .list _ frozen => frozen = false
  | .set items frozen => frozen = false ∧ items = []
  | .dict entries frozen =>
    frozen = false ∧ (entries = [] ∨ ∃ ref frozen, store.cell ref = .dict entries frozen)
  | .mapping _ ref frozen =>
    frozen = false ∧ ref.index + 1 = store.size ∧ ∃ entries, store.cell ref = .dict entries false
  | _ => True

/-- What may happen to a store at once. -/
inductive Step (s : Store) : Store → Prop
  | alloc {cell : Cell} (fresh : s.Fresh cell) (has : ∀ v ∈ cell.held, s.Has v) :
      Step s (s.alloc cell).2
  | list {ref : Ref} {old items : List Value} (cell : s.cell ref = .list old false)
      (has : ∀ v ∈ items, s.Has v) : Step s (s.write ref (.list items false))
  | enter {ref : Ref} {items : List Value} {v : Value} (cell : s.cell ref = .set items false)
      (hashable : s.checkHashable v = .ok ()) (missing : s.isAmong v items = false)
      (has : s.Has v) : Step s (s.write ref (.set (items ++ [v]) false))
  | put {ref : Ref} {entries : List (Value × Value)} {key value : Value}
      (cell : s.cell ref = .dict entries false) (hashable : s.checkHashable key = .ok ())
      (hasKey : s.Has key) (hasValue : s.Has value) :
      Step s (s.write ref (.dict (s.putEntry key value entries) false))
  | erase {ref : Ref} {entries : List (Value × Value)} (key : Value)
      (cell : s.cell ref = .dict entries false) :
      Step s (s.write ref (.dict (s.eraseEntry key entries) false))
  | clear {ref : Ref} {entries : List (Value × Value)} (cell : s.cell ref = .dict entries false) :
      Step s (s.write ref (.dict [] false))
  | freeze (v : Value) : Step s (s.freeze v)

/-- What may happen to a store in the course of time. -/
def Evolves : Store → Store → Prop := Relation.ReflTransGen Step

variable {s t m : Store} {ref : Ref} {v : Value}

theorem lt_size_of_held (h : v ∈ (s.cell ref).held) : ref.index < s.size := by
  refine Nat.lt_of_not_le fun outside => ?_
  rw [cell_of_size_le outside] at h
  cases h

theorem lt_size_of_isContainer (h : (s.cell ref).isContainer = true) : ref.index < s.size := by
  refine Nat.lt_of_not_le fun outside => ?_
  rw [cell_of_size_le outside] at h
  cases h

theorem has_object : s.Has (.object ref) ↔ ref.index < s.size :=
  ⟨fun h => h ref rfl, fun h other same => by cases same; exact h⟩

theorem has_of_scalar (scalar : v.identity? = none) : s.Has v := fun ref same => by
  subst same
  cases scalar

instance : Decidable (s.Has v) :=
  match v with
  | .object _ => decidable_of_iff _ has_object.symm
  | .nothing | .bool _ | .int _ | .float _ | .string _ | .bytes _ | .time _ =>
    .isTrue (has_of_scalar rfl)

theorem Has.mono (h : s.Has v) (grown : s.size ≤ t.size) : t.Has v :=
  fun ref same => Nat.lt_of_lt_of_le (h ref same) grown

/-! ## What a step does to cells -/

/-- Writing a cell over one that it continues. -/
theorem continues_write {c : Cell} (h : (s.cell ref).Continues c) (other : Ref) :
    (s.cell other).Continues ((s.write ref c).cell other) := by
  by_cases same : ref = other
  · subst same
    by_cases inside : ref.index < s.size
    · rw [cell_write_self s c inside]
      exact h
    · rw [write_of_size_le (Nat.not_lt.1 inside)]
      exact .refl _
  · rw [cell_write_other s c same]
    exact .refl _

theorem Flagged.continues (h : Flagged s t) (ref : Ref) : (s.cell ref).Continues (t.cell ref) := by
  rcases h.cell ref with same | marked
  · rw [same]
    exact .refl _
  · rw [marked]
    exact Cell.continues_freeze _

theorem Step.size_le (h : Step s t) : s.size ≤ t.size := by
  cases h with
  | alloc =>
    rw [size_alloc]
    exact Nat.le_succ _
  | list | enter | put | erase | clear => exact Nat.le_of_eq (size_write ..).symm
  | freeze v => exact Nat.le_of_eq (freeze_flagged s v).size_eq.symm

/-- Every cell that is there continues. -/
theorem Step.continues (h : Step s t) (inside : ref.index < s.size) :
    (s.cell ref).Continues (t.cell ref) := by
  cases h with
  | alloc =>
    rw [cell_alloc_other s _ inside]
    exact .refl _
  | list cell | enter cell | put cell | erase _ cell | clear cell =>
    refine continues_write ?_ ref
    rw [cell]
    exact ⟨_, _, rfl⟩
  | freeze v => exact (freeze_flagged s v).continues ref

theorem Evolves.refl (s : Store) : Evolves s s := Relation.ReflTransGen.refl

theorem Evolves.trans (h : Evolves s m) (h' : Evolves m t) : Evolves s t :=
  Relation.ReflTransGen.trans h h'

theorem Step.evolves (h : Step s t) : Evolves s t := Relation.ReflTransGen.single h

theorem Evolves.size_le (h : Evolves s t) : s.size ≤ t.size := by
  induction h with
  | refl => exact Nat.le_refl _
  | tail _ step ih => exact Nat.le_trans ih step.size_le

theorem Evolves.continues (h : Evolves s t) (inside : ref.index < s.size) :
    (s.cell ref).Continues (t.cell ref) := by
  induction h with
  | refl => exact .refl _
  | tail before step ih =>
    exact ih.trans (step.continues (Nat.lt_of_lt_of_le inside (Evolves.size_le before)))

/-- What is frozen stays as it is. -/
theorem Evolves.cell_of_isFrozen (h : Evolves s t) (frozen : (s.cell ref).isFrozen = true) :
    t.cell ref = s.cell ref :=
  (h.continues (lt_size_of_isContainer (Cell.isContainer_of_isFrozen frozen))).eq_of_isFrozen frozen

/-- What is no container stays as it is. -/
theorem Evolves.cell_of_not_container (h : Evolves s t) (inside : ref.index < s.size)
    (plain : (s.cell ref).isContainer = false) : t.cell ref = s.cell ref :=
  (h.continues inside).eq_of_not_container plain

theorem Evolves.has (h : Evolves s t) (has : s.Has v) : t.Has v := has.mono h.size_le

/-! ## Closed stores -/

theorem mem_entryParts_putEntry {key value : Value} {entries : List (Value × Value)}
    (h : v ∈ entryParts (s.putEntry key value entries)) :
    v ∈ entryParts entries ∨ v = key ∨ v = value := by
  induction entries with
  | nil =>
    rw [putEntry, entryParts_cons, List.mem_cons, List.mem_cons] at h
    rcases h with same | same | none
    · exact .inr (.inl same)
    · exact .inr (.inr same)
    · cases none
  | cons entry rest ih =>
    obtain ⟨other, old⟩ := entry
    rw [putEntry] at h
    rw [entryParts_cons, List.mem_cons, List.mem_cons]
    split at h
    · rw [entryParts_cons, List.mem_cons, List.mem_cons] at h
      rcases h with same | same | isRest
      · exact .inl (.inl same)
      · exact .inr (.inr same)
      · exact .inl (.inr (.inr isRest))
    · rw [entryParts_cons, List.mem_cons, List.mem_cons] at h
      rcases h with same | same | isRest
      · exact .inl (.inl same)
      · exact .inl (.inr (.inl same))
      · exact (ih isRest).imp (fun h => .inr (.inr h)) id

theorem mem_entryParts_eraseEntry {key : Value} {entries : List (Value × Value)}
    (h : v ∈ entryParts (s.eraseEntry key entries)) : v ∈ entryParts entries := by
  obtain ⟨entry, isEntry, same⟩ := List.mem_flatMap.1 h
  exact List.mem_flatMap.2 ⟨entry, List.mem_of_mem_eraseP isEntry, same⟩

theorem closed_write {c : Cell} (closed : s.Closed) (has : ∀ v ∈ c.held, s.Has v) :
    (s.write ref c).Closed := by
  intro other v held
  refine Has.mono ?_ (Nat.le_of_eq (size_write s ref c).symm)
  by_cases same : ref = other
  · subst same
    by_cases inside : ref.index < s.size
    · rw [cell_write_self s c inside] at held
      exact has v held
    · rw [write_of_size_le (Nat.not_lt.1 inside)] at held
      exact closed _ v held
  · rw [cell_write_other s c same] at held
    exact closed _ v held

theorem Flagged.closed (h : Flagged s t) (closed : s.Closed) : t.Closed := by
  intro ref v held
  rw [h.congr Cell.held_freeze ref] at held
  exact (closed ref v held).mono (Nat.le_of_eq h.size_eq.symm)

theorem Step.closed (h : Step s t) (closed : s.Closed) : t.Closed := by
  cases h with
  | @alloc cell fresh has =>
    intro ref v held
    refine Has.mono ?_ (Step.alloc fresh has).size_le
    rcases lt_size_or_eq_of_alloc (lt_size_of_held held) with inside | rfl
    · rw [cell_alloc_other s _ inside] at held
      exact closed _ v held
    · rw [cell_alloc_self] at held
      exact has v held
  | list _ has => exact closed_write closed has
  | @enter ref items v cell hashable missing has =>
    refine closed_write closed fun w held => ?_
    rcases List.mem_append.1 held with old | new
    · exact closed ref w (by rwa [cell])
    · rw [List.mem_singleton.1 new]
      exact has
  | @put ref entries key value cell hashable hasKey hasValue =>
    refine closed_write closed fun w held => ?_
    rcases mem_entryParts_putEntry held with old | rfl | rfl
    · exact closed ref w (by rwa [cell])
    · exact hasKey
    · exact hasValue
  | @erase ref entries key cell =>
    refine closed_write closed fun w held => ?_
    exact closed ref w (by rw [cell]; exact mem_entryParts_eraseEntry held)
  | clear => exact closed_write closed fun w held => by cases held
  | freeze v => exact (freeze_flagged s v).closed closed

theorem Evolves.closed (h : Evolves s t) (closed : s.Closed) : t.Closed := by
  induction h with
  | refl => exact closed
  | tail _ step ih => exact step.closed ih

/-! ## Names -/

theorem names_of_isContainer {c : Cell} (h : c.isContainer = true) : c.names = [] := by
  cases c <;> first | rfl | cases h

/-- No record has two fields of one name, and no module two members. -/
def Named (store : Store) : Prop := ∀ ref, (store.cell ref).names.Nodup

/-- A store goes on to another, and names stay distinct on the way. -/
structure Proceeds (s t : Store) : Prop where
  evolves : s.Evolves t
  named : s.Named → t.Named

theorem Proceeds.refl (s : Store) : Proceeds s s := ⟨.refl s, id⟩

theorem Proceeds.trans (h : Proceeds s m) (h' : Proceeds m t) : Proceeds s t :=
  ⟨h.evolves.trans h'.evolves, fun named => h'.named (h.named named)⟩

/-- Only a new cell can bring names. -/
theorem Step.proceeds (h : Step s t) (same : t.size = s.size) : Proceeds s t := by
  refine ⟨h.evolves, fun named ref => ?_⟩
  by_cases inside : ref.index < s.size
  · have continues := h.continues inside
    cases container : (s.cell ref).isContainer with
    | true =>
      rw [names_of_isContainer (continues.isContainer_eq.trans container)]
      exact List.nodup_nil
    | false =>
      rw [continues.eq_of_not_container container]
      exact named ref
  · rw [cell_of_size_le (same.symm ▸ Nat.not_lt.1 inside)]
    exact List.nodup_nil

theorem Proceeds.alloc {c : Cell} (fresh : s.Fresh c) (has : ∀ v ∈ c.held, s.Has v)
    (names : c.names.Nodup) : Proceeds s (s.alloc c).2 := by
  refine ⟨(Step.alloc fresh has).evolves, fun named ref => ?_⟩
  by_cases inside : ref.index < (s.alloc c).2.size
  · rcases lt_size_or_eq_of_alloc inside with old | rfl
    · rw [cell_alloc_other s c old]
      exact named ref
    · rw [cell_alloc_self]
      exact names
  · rw [cell_of_size_le (Nat.not_lt.1 inside)]
    exact List.nodup_nil

end Store
end Interchange
