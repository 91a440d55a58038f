import Mathlib.Data.List.Nodup
import Mathlib.Data.List.Perm.Subperm
import Mathlib.Logic.Relation
import Interchange.Store.Kind

/-!
# A store as a graph

The cells of a store are the nodes of a directed graph that may have cycles. `Store.anatomy` says
how a walk takes a cell apart, and its parts are the edges: elements, keys and values, fields,
members and the entries of a mapping. The tag of a record is no part of it here.
-/

namespace Interchange

/-- How a walk takes a cell apart. -/
inductive Anatomy where
  | sequence (items : List Value)
  | keyed (entries : List (Value × Value))
  | named (fields : List (String × Value))
  | handle (native : Native)
  /-- There is nothing inside that a walk would come to. -/
  | closed

/-- The parts in order; of entries the key and then the value. -/
def Anatomy.parts : Anatomy → List Value
  | sequence items => items
  | keyed entries => entryParts entries
  | named fields => fields.map Prod.snd
  | handle _ => []
  | closed => []

namespace Store

/-- The anatomy of a cell. A mapping has the entries of its dict. -/
def anatomy (store : Store) (ref : Ref) : Anatomy :=
  match store.cell ref with
  | .list items _ => .sequence items
  | .tuple items => .sequence items
  | .set items _ => .sequence items
  | .dict entries _ => .keyed entries
  | .mapping _ dict _ => .keyed (store.dictEntries dict)
  | .record _ fields => .named fields
  | .module _ members => .named members
  | .proxy native => .handle native
  | .function _ => .closed
  | .extension _ => .closed

/-- One cell has another among its parts. -/
def Leads (store : Store) (ref other : Ref) : Prop := .object other ∈ (store.anatomy ref).parts

/-- A value is a cell, or leads to it over any number of others. -/
def Reaches (store : Store) (v : Value) (ref : Ref) : Prop :=
  ∃ start, v = .object start ∧ Relation.ReflTransGen store.Leads start ref

/-- A cell leads back to itself. -/
def OnCycle (store : Store) (ref : Ref) : Prop := Relation.TransGen store.Leads ref ref

variable {store : Store} {v : Value} {ref other : Ref}

theorem mem_entryParts {entries : List (Value × Value)} :
    v ∈ entryParts entries ↔ ∃ entry ∈ entries, v = entry.1 ∨ v = entry.2 := by
  simp [entryParts]

/-- There are no more distinct cells than a store has. -/
theorem length_le_size {refs : List Ref} (once : refs.Nodup)
    (inside : ∀ r ∈ refs, r.index < store.size) : refs.length ≤ store.size := by
  have distinct : (refs.map Ref.index).Nodup :=
    once.map fun a b same => by cases a; cases b; cases same; rfl
  have range : refs.map Ref.index ⊆ List.range store.size := by
    intro i isIndex
    obtain ⟨r, isRef, rfl⟩ := List.mem_map.1 isIndex
    exact List.mem_range.2 (inside r isRef)
  simpa using (distinct.subperm range).length_le

theorem reaches_self : store.Reaches (.object ref) ref := ⟨ref, rfl, .refl⟩

/-- What a part of a cell reaches is reached from the cell. -/
theorem Reaches.of_part (part : v ∈ (store.anatomy ref).parts) (h : store.Reaches v other) :
    store.Reaches (.object ref) other := by
  obtain ⟨start, rfl, path⟩ := h
  exact ⟨ref, rfl, .head part path⟩

/-- A cell that was never allocated has no parts. -/
theorem parts_of_size_le (h : store.size ≤ ref.index) : (store.anatomy ref).parts = [] := by
  simp [anatomy, cell_of_size_le h, Anatomy.parts]

theorem Leads.lt_size (h : store.Leads ref other) : ref.index < store.size := by
  refine Nat.lt_of_not_le fun outside => ?_
  have none := parts_of_size_le outside
  rw [Leads, none] at h
  cases h

/-- A cell that is reached is the first one or is reached from one of its parts. -/
theorem Reaches.cases_part (h : store.Reaches (.object ref) other) :
    other = ref ∨ ∃ part ∈ (store.anatomy ref).parts, store.Reaches part other := by
  obtain ⟨_, same, path⟩ := h
  cases same
  rcases Relation.ReflTransGen.cases_head path with rfl | ⟨next, first, rest⟩
  · exact .inl rfl
  · exact .inr ⟨.object next, first, next, rfl, rest⟩

/-- When no part of a cell leads to a cycle, neither does the cell. -/
theorem not_onCycle_of_parts
    (h : ∀ part ∈ (store.anatomy ref).parts, ∀ other, store.Reaches part other →
      ¬ store.OnCycle other) (reached : store.Reaches (.object ref) other) :
    ¬ store.OnCycle other := by
  rcases reached.cases_part with rfl | ⟨part, isPart, fromPart⟩
  · intro cycle
    obtain ⟨next, first, rest⟩ := Relation.TransGen.head'_iff.1 cycle
    exact h _ first _ ⟨next, rfl, rest⟩ cycle
  · exact h part isPart other fromPart

end Store
end Interchange
