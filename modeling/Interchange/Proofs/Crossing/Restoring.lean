import Mathlib.Data.List.Perm.Basic
import Interchange.Proofs.Crossing.RoundTrip
import Interchange.Proofs.Store.Steady

/-!
# What arrives, and what is refused

A host value arrives in every store, as a value of which something holds
(`HostValue.Restores`), if its parts do and the keys of its maps are scalars that differ. What holds
of the parts may be said of anything that stands beside them, such as the values that they came
from. A value with a part that does not arrive is refused with that part (`HostValue.Refused`), and
so is one with a list as a key.
-/

namespace Interchange.HostValue

open Store

variable {α : Type} {P : α → Store → Value → Prop} {Q : Store → Value → Prop} {s : Store} {v : Value}
  {h : HostValue} {fault : Fault}

/-- The host value arrives in every store, as a value of which something holds while it is there. -/
def Restores (h : HostValue) (Q : Store → Value → Prop) : Prop :=
  ∀ s : Store, ∃ v t, h.arrive.runOn s = (.ok v, t) ∧ Built (fun _ => False) s t fun u => Q u v

/-- The host value arrives in no store. -/
def Refused (h : HostValue) (fault : Fault) : Prop :=
  ∀ s : Store, ∃ t, h.arrive.runOn s = (.error fault, t)

theorem Restores.imp {Q' : Store → Value → Prop} (restores : h.Restores Q)
    (weaker : ∀ u v, Q u v → Q' u v) : h.Restores Q' := fun s =>
  have ⟨v, t, arrived, built⟩ := restores s
  ⟨v, t, arrived, built.imp fun u => weaker u v⟩

theorem Refused.not_restores (refused : h.Refused fault) : ¬ h.Restores Q := by
  intro restores
  obtain ⟨t, failed⟩ := refused .empty
  obtain ⟨v, u, arrived, -⟩ := restores .empty
  rw [arrived] at failed
  cases failed

theorem arrive_of_scalar? (scalar : h.scalar? = some v) : h.arrive = pure v := by
  cases h <;> cases scalar <;> rfl

theorem identity?_of_scalar? (scalar : h.scalar? = some v) : v.identity? = none := by
  cases h <;> cases scalar <;> rfl

theorem restores_scalar (scalar : h.scalar? = some v) (holds : ∀ u : Store, Q u v) :
    h.Restores Q := by
  intro s
  rw [arrive_of_scalar? scalar]
  exact ⟨v, s, rfl, .refl holds⟩

/-! ## Lists -/

section Items

variable {items : List HostValue} {xs : List α}

theorem restores_items (each : List.Forall₂ (fun item x => item.Restores (P x)) items xs)
    (s : Store) : ∃ values t, (arriveItems items).runOn s = (.ok values, t) ∧
      Built (fun _ => False) s t fun u => List.Forall₂ (fun x v => P x u v) xs values := by
  induction each generalizing s with
  | nil => exact ⟨[], s, rfl, .refl fun _ => .nil⟩
  | cons first _ ih =>
    obtain ⟨v, m, arrived, built⟩ := first s
    obtain ⟨values, t, arrived', built'⟩ := ih m
    refine ⟨v :: values, t, ?_, (built.trans built' fun _ => False.elim).imp fun u both => ?_⟩
    · rw [arriveItems, Op.runOn_bind_of_ok arrived, Op.runOn_bind_of_ok arrived']
      rfl
    · exact .cons both.1 both.2

theorem restores_list (each : List.Forall₂ (fun item x => item.Restores (P x)) items xs) :
    (list items).Restores fun u w => ∃ r values, w = .object r ∧ u.cell r = .list values false ∧
      List.Forall₂ (fun x v => P x u v) xs values := by
  intro s
  obtain ⟨values, t, arrived, built⟩ := restores_items each s
  refine ⟨.object (t.alloc (.list values false)).1, _, ?_,
    (built.alloc (.list values false)).imp fun u ⟨parts, cell⟩ => ⟨_, values, rfl, cell, parts⟩⟩
  rw [arrive, Op.runOn_bind_of_ok arrived]
  exact Op.runOn_new _

theorem refused_list (each : ∀ item ∈ items, (∃ Q, item.Restores Q) ∨ item.Refused fault)
    (some : ¬ ∀ item ∈ items, ∃ Q, item.Restores Q) : (list items).Refused fault := by
  have refused (s : Store) : ∃ t, (arriveItems items).runOn s = (.error fault, t) := by
    induction items generalizing s with
    | nil => exact absurd nofun some
    | cons item rest ih =>
      obtain ⟨first, each⟩ := List.forall_mem_cons.1 each
      rcases first with ⟨Q, restores⟩ | refused
      · obtain ⟨v, m, arrived, -⟩ := restores s
        obtain ⟨t, failed⟩ := ih each
          (fun all => some (List.forall_mem_cons.2 ⟨⟨Q, restores⟩, all⟩)) m
        refine ⟨t, ?_⟩
        rw [arriveItems, Op.runOn_bind_of_ok arrived, Op.runOn_bind, failed]
      · obtain ⟨t, failed⟩ := refused s
        refine ⟨t, ?_⟩
        rw [arriveItems, Op.runOn_bind, failed]
  intro s
  obtain ⟨t, failed⟩ := refused s
  exact ⟨t, by rw [arrive, Op.runOn_bind, failed]⟩

end Items

/-! ## Entries -/

section Entries

variable {entries : List (HostValue × HostValue)} {xs : List (Value × α)}

/-- A scalar passes as a key. -/
theorem runOn_insert_scalar {dict : Ref} {key value : Value} {kept : List (Value × Value)}
    (cell : s.cell dict = .dict kept false) (scalar : key.identity? = none) :
    (Dict.insert dict key value).runOn s =
      (.ok (), s.write dict (.dict (s.putEntry key value kept) false)) :=
  Dict.runOn_insert_of_ends dict key value cell (checkHashableWithin_scalar scalar _)
    (lookUpEnds_of_scalar scalar _)

/-- A value is entered under a new scalar key. -/
theorem runOn_insert_fresh {dict : Ref} {key value : Value} {kept : List (Value × Value)}
    (cell : s.cell dict = .dict kept false) (scalar : key.identity? = none)
    (fresh : ∀ other ∈ kept.map Prod.fst, scalarEqual key other = false) :
    (Dict.insert dict key value).runOn s =
      (.ok (), s.write dict (.dict (kept ++ [(key, value)]) false)) := by
  rw [runOn_insert_scalar cell scalar, putEntry_of_fresh value fun other isKey => by
    rw [equals_of_scalar scalar, fresh other isKey]]

/-- Entries are entered in their order. -/
theorem restores_entries (dict : Ref) (kept : List (Value × Value))
    (each : List.Forall₂ (fun entry x => entry.1.scalar? = some x.1 ∧ entry.2.Restores (P x.2))
      entries xs)
    (apart : (kept.map Prod.fst ++ xs.map Prod.fst).Pairwise fun a b => scalarEqual b a = false)
    (inside : dict.index < s.size) (cell : s.cell dict = .dict kept false) :
    ∃ added t, (arrivePairs dict entries).runOn s = (.ok (), t) ∧
      t.cell dict = .dict (kept ++ added) false ∧ Built (· = dict) s t fun u =>
        List.Forall₂ (fun x entry => x.1 = entry.1 ∧ P x.2 u entry.2) xs added := by
  induction each generalizing s kept with
  | nil => exact ⟨[], s, rfl, by rwa [List.append_nil], .refl fun _ => .nil⟩
  | @cons entry x entries xs first _ ih =>
    obtain ⟨scalar, restores⟩ := first
    obtain ⟨v, m, arrived, built⟩ := restores s
    -- The dict is filled while the parts arrive, but these only add cells to it.
    have fresh : ∀ other ∈ kept.map Prod.fst, scalarEqual x.1 other = false := fun other isKey =>
      (List.pairwise_append.1 apart).2.2 other isKey x.1 List.mem_cons_self
    have here : m.cell dict = .dict kept false := by
      rw [built.kept dict inside not_false, cell]
    have within : dict.index < m.size := Nat.lt_of_lt_of_le inside built.size_le
    have entered := built.write inside (.dict (kept ++ [(x.1, v)]) false)
    obtain ⟨added, t, filled, last, built'⟩ := ih (kept ++ [(x.1, v)]) (by simpa using apart)
      (by rwa [size_write]) (cell_write_self m _ within)
    refine ⟨(x.1, v) :: added, t, ?_, ?_, ?_⟩
    · have key : entry.1.arrive.runOn s = (.ok x.1, s) := by
        rw [arrive_of_scalar? scalar]
        rfl
      rw [arrivePairs, Op.runOn_bind_of_ok key, Op.runOn_bind_of_ok arrived, Op.runOn_bind_of_ok
        (runOn_insert_fresh here (identity?_of_scalar? scalar) fresh)]
      exact filled
    · rw [last]
      simp
    · exact (entered.trans built' fun _ same => same ▸ inside).imp fun u both =>
        .cons ⟨rfl, both.1⟩ both.2

theorem restores_pairs
    (each : List.Forall₂ (fun entry x => entry.1.scalar? = some x.1 ∧ entry.2.Restores (P x.2))
      entries xs)
    (apart : (xs.map Prod.fst).Pairwise fun a b => scalarEqual b a = false) :
    (pairs entries).Restores fun u w => ∃ r others, w = .object r ∧
      u.cell r = .dict others false ∧
        List.Forall₂ (fun x entry => x.1 = entry.1 ∧ P x.2 u entry.2) xs others := by
  intro s
  obtain ⟨added, t, filled, cell, built⟩ := restores_entries (s.alloc (.dict [] false)).1 [] each
    apart (by rw [size_alloc]; exact Nat.lt_succ_self _) (cell_alloc_self s (.dict [] false))
  refine ⟨.object (s.alloc (.dict [] false)).1, t, ?_,
    (built.fill cell).imp fun u ⟨parts, here⟩ => ⟨_, added, rfl, here, parts⟩⟩
  have made : Dict.alloc.runOn s = (.ok _, _) := Op.runOn_alloc (.dict [] false)
  rw [arrive, Op.runOn_bind_of_ok made, Op.runOn_bind_of_ok filled]
  rfl

/-- A map from texts arrives as its entries do under keys of any kind. -/
theorem arrive_map (named : List (String × HostValue)) :
    (map named).arrive = (pairs (named.map fun entry => (.string entry.1, entry.2))).arrive := by
  rw [arrive, arrive]
  simp only [arriveEntries_eq]

theorem restores_map {named : List (String × HostValue)} {xs : List (String × α)}
    (each : List.Forall₂ (fun entry x => entry.1 = x.1 ∧ entry.2.Restores (P x.2)) named xs)
    (distinct : (xs.map Prod.fst).Nodup) :
    (map named).Restores fun u w => ∃ r others, w = .object r ∧ u.cell r = .dict others false ∧
      List.Forall₂ (fun x entry => entry.1 = .string x.1 ∧ P x.2 u entry.2) xs others := by
  have texts : List.Forall₂ (fun (entry : HostValue × HostValue) (x : Value × α) =>
        entry.1.scalar? = some x.1 ∧ entry.2.Restores (P x.2))
      (named.map fun entry => (.string entry.1, entry.2))
      (xs.map fun x => (Value.string x.1, x.2)) := by
    refine List.forall₂_map_left_iff.2 (List.forall₂_map_right_iff.2 (each.imp ?_))
    exact fun _ _ both => ⟨congrArg (some ∘ Value.string) both.1, both.2⟩
  have apart : ((xs.map fun x => (Value.string x.1, x.2)).map Prod.fst).Pairwise
      fun a b => scalarEqual b a = false := by
    rw [List.map_map]
    refine List.pairwise_map.2 ((List.pairwise_map.1 distinct).imp fun differ => ?_)
    simpa [scalarEqual] using differ.symm
  intro s
  rw [arrive_map]
  refine (restores_pairs texts apart).imp ?_ s
  rintro u w ⟨r, others, isDict, cell, parts⟩
  exact ⟨r, others, isDict, cell, (List.forall₂_map_left_iff.1 parts).imp fun _ _ both =>
    ⟨both.1.symm, both.2⟩⟩

/-- Entries arrive whether they are a map by name or stay pairs. -/
theorem restores_ofPairs
    (each : List.Forall₂ (fun entry x => entry.1.scalar? = some x.1 ∧ entry.2.Restores (P x.2))
      entries xs)
    (apart : (xs.map Prod.fst).Pairwise fun a b => scalarEqual b a = false) :
    (ofPairs entries).Restores fun u w => ∃ r others sorted, w = .object r ∧
      u.cell r = .dict others false ∧ others.Perm sorted ∧
        List.Forall₂ (fun x entry => x.1 = entry.1 ∧ P x.2 u entry.2) xs sorted := by
  rcases ofPairs_cases entries with ⟨named, rfl, byName⟩ | ⟨-, byKey⟩
  · have texts := List.forall₂_map_left_iff.1 each
    have names : named.map (fun entry => Value.string entry.1) = xs.map Prod.fst :=
      map_eq_of_forall₂ texts fun _ _ both => Option.some.inj both.1
    have distinct : (named.map Prod.fst).Nodup := by
      rw [← names] at apart
      refine List.pairwise_map.2 ((List.pairwise_map.1 apart).imp fun unequal same => ?_)
      simp [scalarEqual, same] at unequal
    obtain ⟨sorted, -⟩ := TextMap.ofList_of_distinct distinct
    obtain ⟨xs', each, perm⟩ := List.perm_comp_forall₂
      (sorted.map fun entry => (HostValue.string entry.1, entry.2)) each
    have apart' : (xs'.map Prod.fst).Pairwise fun a b => scalarEqual b a = false :=
      (perm.map Prod.fst).symm.pairwise apart fun unequal => by rwa [scalarEqual_comm]
    intro s
    rw [byName, ofEntries, arrive_map]
    refine (restores_pairs each apart').imp ?_ s
    rintro u w ⟨r, others, isDict, cell, parts⟩
    obtain ⟨inOrder, parts, perm'⟩ := List.perm_comp_forall₂ perm.symm parts
    exact ⟨r, others, inOrder, isDict, cell, perm'.symm, parts⟩
  · rw [byKey]
    refine (restores_pairs each apart).imp ?_
    rintro u w ⟨r, others, isDict, cell, parts⟩
    exact ⟨r, others, others, isDict, cell, .refl _, parts⟩

/-- The name that lists are refused by as keys. -/
def listFault : Fault := .unhashable "list"

/-- The host value arrives as a list. -/
def BecomesList (h : HostValue) : Prop :=
  h.Restores fun u w => ∃ r items, w = .object r ∧ u.cell r = .list items false

/-- An entry with a scalar key that arrives. -/
def Enters (entry : HostValue × HostValue) : Prop :=
  (∃ key, entry.1.scalar? = some key) ∧ ∃ Q, entry.2.Restores Q

/-- An entry that is refused: by its key, which is a list, or else by its value. -/
def EntryRefused (entry : HostValue × HostValue) : Prop :=
  entry.1.BecomesList ∧ ((∃ Q, entry.2.Restores Q) ∨ entry.2.Refused listFault) ∨
    (∃ key, entry.1.scalar? = some key) ∧ entry.2.Refused listFault

theorem BecomesList.scalar? (becomes : h.BecomesList) : h.scalar? = none := by
  refine Option.eq_none_iff_forall_ne_some.2 fun v scalar => ?_
  obtain ⟨k, t, arrived, built⟩ := becomes .empty
  obtain ⟨r, items, rfl, -⟩ := built.added t fun _ _ _ => rfl
  rw [arrive_of_scalar? scalar] at arrived
  cases arrived
  cases identity?_of_scalar? scalar

theorem EntryRefused.not_enters {entry : HostValue × HostValue} (refused : EntryRefused entry) :
    ¬ Enters entry := by
  rintro ⟨⟨key, scalar⟩, Q, restores⟩
  rcases refused with ⟨becomes, -⟩ | ⟨-, refused⟩
  · rw [becomes.scalar?] at scalar
    cases scalar
  · exact refused.not_restores restores

/-- A list is no key, whatever the value is. -/
theorem runOn_insert_list {dict r : Ref} {items : List Value} {value : Value}
    (cell : s.cell r = .list items false) :
    (Dict.insert dict (.object r) value).runOn s = (.error listFault, s) := by
  have refused : s.checkHashable (.object r) = .error listFault := by
    rw [checkHashable, checkHashableWithin_container (by rw [cell]; rfl), cell]
    rfl
  rw [Dict.runOn_insert, refused]

theorem refused_entries (dict : Ref)
    (each : ∀ entry ∈ entries, Enters entry ∨ EntryRefused entry)
    (some : ¬ ∀ entry ∈ entries, Enters entry) {kept : List (Value × Value)}
    (inside : dict.index < s.size) (cell : s.cell dict = .dict kept false) :
    ∃ t, (arrivePairs dict entries).runOn s = (.error listFault, t) := by
  induction entries generalizing s kept with
  | nil => exact absurd nofun some
  | cons entry rest ih =>
    obtain ⟨first, each⟩ := List.forall_mem_cons.1 each
    rcases first with ⟨⟨key, scalar⟩, Q, restores⟩ | ⟨becomes, value⟩ | ⟨⟨key, scalar⟩, refused⟩
    · obtain ⟨v, m, arrived, built⟩ := restores s
      have arrivedKey : entry.1.arrive.runOn s = (.ok key, s) := by
        rw [arrive_of_scalar? scalar]
        rfl
      have here : m.cell dict = .dict kept false := by
        rw [built.kept dict inside not_false, cell]
      have within : dict.index < m.size := Nat.lt_of_lt_of_le inside built.size_le
      obtain ⟨t, failed⟩ := ih each
        (fun all => some (List.forall_mem_cons.2 ⟨⟨⟨key, scalar⟩, Q, restores⟩, all⟩))
        (by rwa [size_write]) (cell_write_self m (.dict (m.putEntry key v kept) false) within)
      refine ⟨t, ?_⟩
      rw [arrivePairs, Op.runOn_bind_of_ok arrivedKey, Op.runOn_bind_of_ok arrived,
        Op.runOn_bind_of_ok (runOn_insert_scalar here (identity?_of_scalar? scalar))]
      exact failed
    · obtain ⟨k, m, arrivedKey, builtKey⟩ := becomes s
      rcases value with ⟨Q, restores⟩ | refused
      · obtain ⟨v, m', arrived, built⟩ := restores m
        obtain ⟨⟨r, items, rfl, list⟩, -⟩ :=
          (builtKey.trans built fun _ => False.elim).added m' fun _ _ _ => rfl
        refine ⟨m', ?_⟩
        rw [arrivePairs, Op.runOn_bind_of_ok arrivedKey, Op.runOn_bind_of_ok arrived, Op.runOn_bind,
          runOn_insert_list list]
      · obtain ⟨t, failed⟩ := refused m
        exact ⟨t, by rw [arrivePairs, Op.runOn_bind_of_ok arrivedKey, Op.runOn_bind, failed]⟩
    · obtain ⟨t, failed⟩ := refused s
      have arrivedKey : entry.1.arrive.runOn s = (.ok key, s) := by
        rw [arrive_of_scalar? scalar]
        rfl
      exact ⟨t, by rw [arrivePairs, Op.runOn_bind_of_ok arrivedKey, Op.runOn_bind, failed]⟩

theorem refused_pairs (each : ∀ entry ∈ entries, Enters entry ∨ EntryRefused entry)
    (some : ¬ ∀ entry ∈ entries, Enters entry) : (pairs entries).Refused listFault := by
  intro s
  obtain ⟨t, failed⟩ := refused_entries (s.alloc (.dict [] false)).1 each some
    (by rw [size_alloc]; exact Nat.lt_succ_self _) (cell_alloc_self s (.dict [] false))
  have made : Dict.alloc.runOn s = (.ok _, _) := Op.runOn_alloc (.dict [] false)
  exact ⟨t, by rw [arrive, Op.runOn_bind_of_ok made, Op.runOn_bind, failed]⟩

theorem refused_ofPairs (each : ∀ entry ∈ entries, Enters entry ∨ EntryRefused entry)
    (some : ¬ ∀ entry ∈ entries, Enters entry)
    (apart : entries.Pairwise fun a b => sameKey b.1 a.1 = false) :
    (ofPairs entries).Refused listFault := by
  rcases ofPairs_cases entries with ⟨named, rfl, byName⟩ | ⟨-, byKey⟩
  · have distinct : (named.map Prod.fst).Nodup := by
      refine List.pairwise_map.2 ((List.pairwise_map.1 apart).imp fun unequal same => ?_)
      simp [sameKey, scalar?, scalarEqual, same] at unequal
    obtain ⟨sorted, -⟩ := TextMap.ofList_of_distinct distinct
    have perm := sorted.map fun entry => (HostValue.string entry.1, entry.2)
    intro s
    rw [byName, ofEntries, arrive_map]
    exact refused_pairs (fun entry isEntry => each entry (perm.mem_iff.1 isEntry))
      (fun all => some fun entry isEntry => all entry (perm.mem_iff.2 isEntry)) s
  · rw [byKey]
    exact refused_pairs each some

end Entries

end Interchange.HostValue
