import Interchange.Proofs.Store.Step

/-!
# What lasts

A cell that is no container never changes, and it holds only what was there before it
(`Store.Aged`). So a walk over such cells goes down in age: it ends within any depth that is not
less than the age of its start, and it finds the same at any later time. That settles whether a
value is hashable (`checkHashable_eq`). What is hashable, with hashable tags, is compared without a
look into a container (`Store.Lasts`, `lasts_of_checkHashable`).
-/

namespace Interchange

/-- A scalar, or a reference to a cell that was added before others. -/
def Value.Below (bound : Nat) (v : Value) : Prop := ∀ ref, v = .object ref → ref.index < bound

namespace Value

variable {v : Value} {ref : Ref} {m n : Nat}

theorem below_object : (object ref).Below n ↔ ref.index < n :=
  ⟨fun h => h ref rfl, fun h _ same => by cases same; exact h⟩

theorem exists_succ_of_below (h : (object ref).Below n) : ∃ m, n = m + 1 ∧ ref.index ≤ m := by
  have lt := below_object.1 h
  exact ⟨n - 1, by omega, by omega⟩

theorem Below.mono (h : v.Below m) (le : m ≤ n) : v.Below n :=
  fun ref same => Nat.lt_of_lt_of_le (h ref same) le

/-- What holds of scalars, and of an object when it holds of all that is older, holds of all
values. -/
theorem age_induction {motive : Value → Prop} (scalar : ∀ v, v.identity? = none → motive v)
    (object : ∀ ref, (∀ v, Below ref.index v → motive v) → motive (object ref)) (v : Value) :
    motive v := by
  suffices ∀ bound, ∀ v, Below bound v → motive v by
    cases v with
    | object ref => exact this (ref.index + 1) _ (below_object.2 (Nat.lt_succ_self _))
    | _ => exact scalar _ rfl
  intro bound
  induction bound with
  | zero =>
    intro v below
    cases v with
    | object ref => exact absurd (below_object.1 below) (Nat.not_lt_zero _)
    | _ => exact scalar _ rfl
  | succ bound ih =>
    intro v below
    cases v with
    | object ref =>
      have le := Nat.le_of_lt_succ (below_object.1 below)
      exact object ref fun v older => ih v (older.mono le)
    | _ => exact scalar _ rfl

end Value

namespace Cell

/-- The values of a cell that is no container by which it is compared. -/
def compared : Cell → List Value
  | tuple items => items
  | record tag fields => tag :: fields.map Prod.snd
  | _ => []

/-- The values of a cell that the check of keys goes into. -/
def hashed : Cell → List Value
  | tuple items => items
  | record _ fields => fields.map Prod.snd
  | _ => []

theorem held_of_compared {c : Cell} {v : Value} (h : v ∈ c.compared) : v ∈ c.held := by
  cases c <;> first | exact h | cases h

theorem compared_of_hashed {c : Cell} {v : Value} (h : v ∈ c.hashed) : v ∈ c.compared := by
  cases c with
  | tuple => exact h
  | record => exact List.mem_cons_of_mem _ h
  | _ => cases h

theorem hashed_or_tag {c : Cell} {v : Value} (h : v ∈ c.compared) :
    v ∈ c.hashed ∨ ∃ fields, c = record v fields := by
  cases c with
  | tuple => exact .inl h
  | record tag fields =>
    rcases List.mem_cons.1 h with rfl | isField
    · exact .inr ⟨fields, rfl⟩
    · exact .inl isField
  | _ => cases h

/-- The name of a type does not change. -/
theorem Continues.typeName_eq {c d : Cell} (h : c.Continues d) :
    Store.cellTypeName d = Store.cellTypeName c := by
  rcases continues_iff.1 h with rfl | ⟨-, alike⟩
  · rfl
  · cases alike <;> rfl

end Cell

namespace Store

/-- What is no container holds only what is older. -/
def Aged (store : Store) : Prop :=
  ∀ ref, (store.cell ref).isContainer = false → ∀ v ∈ (store.cell ref).held, v.Below ref.index

variable {s t : Store} {ref : Ref} {v w : Value}

theorem Step.aged (h : Step s t) (aged : s.Aged) : t.Aged := by
  intro ref plain v held
  by_cases inside : ref.index < s.size
  · have continues := h.continues inside
    have plainBefore : (s.cell ref).isContainer = false := continues.isContainer_eq ▸ plain
    rw [continues.eq_of_not_container plainBefore] at held
    exact aged ref plainBefore v held
  · have outside := lt_size_of_held held
    cases h with
    | alloc fresh has =>
      rcases lt_size_or_eq_of_alloc outside with old | rfl
      · exact absurd old inside
      · rw [cell_alloc_self] at held
        exact has v held
    | list | enter | put | erase | clear =>
      rw [size_write] at outside
      exact absurd outside inside
    | freeze v =>
      rw [(freeze_flagged s v).size_eq] at outside
      exact absurd outside inside

/-! ## Hashable values -/

theorem forM_congr {α : Type} {f g : α → Except Fault PUnit} {items : List α}
    (h : ∀ a ∈ items, f a = g a) : items.forM f = items.forM g := by
  induction items with
  | nil => rfl
  | cons a rest ih =>
    change (f a >>= fun _ => rest.forM f) = (g a >>= fun _ => rest.forM g)
    rw [h a List.mem_cons_self, ih fun b isRest => h b (List.mem_cons_of_mem _ isRest)]

theorem ok_of_forM {α : Type} {f : α → Except Fault PUnit} {items : List α}
    (h : items.forM f = .ok ()) : ∀ a ∈ items, f a = .ok () := by
  induction items with
  | nil => exact fun a isItem => by cases isItem
  | cons a rest ih =>
    change (f a >>= fun _ => rest.forM f) = _ at h
    cases first : f a with
    | error fault =>
      rw [first] at h
      cases h
    | ok _ =>
      rw [first] at h
      intro b isItem
      rcases List.mem_cons.1 isItem with rfl | isRest
      · exact first
      · exact ih h b isRest

theorem error_of_forM {α : Type} {f : α → Except Fault PUnit} {items : List α} {fault : Fault}
    (h : items.forM f = .error fault) : ∃ a ∈ items, f a = .error fault := by
  induction items with
  | nil => cases h
  | cons a rest ih =>
    change (f a >>= fun _ => rest.forM f) = _ at h
    cases first : f a with
    | error other =>
      rw [first] at h
      cases h
      exact ⟨a, List.mem_cons_self, first⟩
    | ok _ =>
      rw [first] at h
      obtain ⟨b, isRest, failed⟩ := ih h
      exact ⟨b, List.mem_cons_of_mem _ isRest, failed⟩

theorem checkHashableWithin_scalar (scalar : v.identity? = none) (depth : Nat) :
    s.checkHashableWithin depth v = .ok () := by
  cases v <;> first | (cases scalar; done) | (cases depth <;> rfl)

/-- Containers are refused by the name of their type. -/
theorem checkHashableWithin_container (container : (s.cell ref).isContainer = true) (depth : Nat) :
    s.checkHashableWithin depth (.object ref) =
      .error (.unhashable (cellTypeName (s.cell ref))) := by
  unfold checkHashableWithin
  cases cell : s.cell ref with
  | list | set | dict | mapping => simp [typeName, cell]
  | _ =>
    rw [cell] at container
    cases container

/-- What is refused is refused as not hashable. -/
theorem unhashable_of_checkHashableWithin {depth : Nat} {fault : Fault}
    (refused : s.checkHashableWithin depth v = .error fault) :
    ∃ typeName, fault = .unhashable typeName := by
  induction depth using Nat.strongRecOn generalizing v with
  | ind depth ih =>
    revert refused
    fun_cases checkHashableWithin s depth v with
    | case9 ref items cell depth =>
      intro refused
      obtain ⟨v, -, failed⟩ := error_of_forM refused
      exact ih depth (Nat.lt_succ_self depth) failed
    | case11 ref tag fields cell depth =>
      intro refused
      obtain ⟨field, -, failed⟩ := error_of_forM refused
      exact ih depth (Nat.lt_succ_self depth) failed
    | _ =>
      intro refused
      first | exact ⟨_, (Except.error.inj refused).symm⟩ | cases refused

/-- A look at a value at a later time, and to another depth, finds the same. -/
theorem checkHashableWithin_eq (aged : s.Aged) (evolves : s.Evolves t) {depth other : Nat}
    (has : s.Has v) (below : v.Below depth) (below' : v.Below other) :
    t.checkHashableWithin other v = s.checkHashableWithin depth v := by
  induction depth generalizing other v with
  | zero =>
    cases v with
    | object ref => exact absurd (Value.below_object.1 below) (Nat.not_lt_zero _)
    | _ => rw [checkHashableWithin_scalar rfl, checkHashableWithin_scalar rfl]
  | succ depth ih =>
    cases v with
    | object ref =>
      have inside := has_object.1 has
      have le : ref.index ≤ depth := Nat.le_of_lt_succ (Value.below_object.1 below)
      obtain ⟨other, rfl, le'⟩ := Value.exists_succ_of_below below'
      have continues := evolves.continues inside
      cases container : (s.cell ref).isContainer with
      | true =>
        -- A container may have changed, but it is refused by its type.
        rw [checkHashableWithin_container container,
          checkHashableWithin_container (continues.isContainer_eq.trans container),
          continues.typeName_eq]
      | false =>
        have same := evolves.cell_of_not_container inside container
        have part (w : Value) (held : w ∈ (s.cell ref).held) :
            t.checkHashableWithin other w = s.checkHashableWithin depth w := by
          have older := aged ref container w held
          exact ih (older.mono (Nat.le_of_lt inside)) (older.mono le) (older.mono le')
        unfold checkHashableWithin
        simp only [typeName, same]
        cases cell : s.cell ref with
        | tuple items =>
          rw [cell] at part
          exact forM_congr part
        | record tag fields =>
          rw [cell] at part
          exact forM_congr fun field isField =>
            part _ (List.mem_cons_of_mem _ (List.mem_map_of_mem isField))
        | list | set | dict | mapping => simp [cell, Cell.isContainer] at container
        | module | function | extension | proxy => rfl
    | _ => rw [checkHashableWithin_scalar rfl, checkHashableWithin_scalar rfl]

/-- Whether a value is hashable stays as it is. -/
theorem checkHashable_eq (aged : s.Aged) (evolves : s.Evolves t) (has : s.Has v) :
    t.checkHashable v = s.checkHashable v :=
  checkHashableWithin_eq aged evolves has has (evolves.has has)

/-! ## Values that last -/

/-- A value that is compared without a look into a container. -/
inductive Lasts (s : Store) : Value → Prop
  | scalar {v : Value} (scalar : v.identity? = none) : Lasts s v
  | plain {ref : Ref} (plain : (s.cell ref).isContainer = false)
      (parts : ∀ v ∈ (s.cell ref).compared, Lasts s v) : Lasts s (.object ref)

/-- The tags of records are hashable, too. -/
def PlainTags (store : Store) : Prop :=
  ∀ ref tag fields, store.cell ref = .record tag fields → store.checkHashable tag = .ok ()

/-- A hashable cell is no container, and what the check goes into is hashable. -/
theorem hashable_hashed (aged : s.Aged) (inside : ref.index < s.size)
    (hashable : s.checkHashable (.object ref) = .ok ()) :
    (s.cell ref).isContainer = false ∧ ∀ v ∈ (s.cell ref).hashed, s.checkHashable v = .ok () := by
  have container : (s.cell ref).isContainer = false := by
    refine Bool.eq_false_iff.2 fun container => ?_
    rw [checkHashable, checkHashableWithin_container container] at hashable
    cases hashable
  refine ⟨container, fun v part => ?_⟩
  have older := aged ref container v (Cell.held_of_compared (Cell.compared_of_hashed part))
  have hasPart : s.Has v := older.mono (Nat.le_of_lt inside)
  -- The check went on to the part at a lesser depth than it starts with.
  obtain ⟨depth, size, le⟩ := Value.exists_succ_of_below (has_object.2 inside)
  have again : s.checkHashable v = s.checkHashableWithin depth v :=
    checkHashableWithin_eq aged (.refl s) hasPart (older.mono le) hasPart
  rw [checkHashable, size, checkHashableWithin] at hashable
  rw [again]
  cases cell : s.cell ref with
  | tuple items =>
    rw [cell] at hashable part
    exact ok_of_forM hashable v part
  | record tag fields =>
    rw [cell] at hashable part
    obtain ⟨field, found, rfl⟩ := List.mem_map.1 part
    exact ok_of_forM hashable field found
  | _ =>
    rw [cell] at part
    cases part

/-- A hashable cell is no container, and what it is compared by is hashable, or a tag. -/
theorem hashable_parts (aged : s.Aged) (inside : ref.index < s.size)
    (hashable : s.checkHashable (.object ref) = .ok ()) :
    (s.cell ref).isContainer = false ∧ ∀ v ∈ (s.cell ref).compared,
      s.checkHashable v = .ok () ∨ ∃ fields, s.cell ref = .record v fields := by
  obtain ⟨plain, parts⟩ := hashable_hashed aged inside hashable
  exact ⟨plain, fun v part => (Cell.hashed_or_tag part).imp_left (parts v)⟩

/-- In a store whose tags are hashable, what is hashable lasts. -/
theorem lasts_of_checkHashable (aged : s.Aged) (tags : s.PlainTags) (has : s.Has v)
    (hashable : s.checkHashable v = .ok ()) : s.Lasts v := by
  -- By age and not along the check, which leaves out the tags.
  induction v using Value.age_induction with
  | scalar v scalar => exact .scalar scalar
  | object ref ih =>
    have inside := has_object.1 has
    obtain ⟨plain, parts⟩ := hashable_parts aged inside hashable
    refine .plain plain fun v part => ?_
    have older := aged ref plain v (Cell.held_of_compared part)
    refine ih v older (older.mono (Nat.le_of_lt inside)) ?_
    rcases parts v part with hashable | ⟨fields, cell⟩
    · exact hashable
    · exact tags ref v fields cell

end Store
end Interchange
