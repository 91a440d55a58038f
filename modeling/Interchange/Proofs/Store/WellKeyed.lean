import Interchange.Proofs.History
import Interchange.Proofs.Store.Steady

/-!
# Keys stay apart

The keys of a dict and the elements of a set are hashable, and no two of them are equal of which one
is steady (`Store.WellKeyed`). A key is entered only where no equal one is, and a comparison with a
steady value has one answer for good. So every step keeps it, whatever it does to lists, dicts and
sets elsewhere (`Step.wellKeyed`), and it holds of every store in use (`Reachable.wellKeyed`).
-/

namespace Interchange

theorem Cell.held_of_keys {c : Cell} {v : Value} (h : v ∈ c.keys) : v ∈ c.held := by
  cases c with
  | set => exact h
  | dict entries =>
    obtain ⟨entry, isEntry, rfl⟩ := List.mem_map.1 h
    exact List.mem_flatMap.2 ⟨entry, isEntry, List.mem_cons_self⟩
  | _ => cases h

namespace Store

variable {s t : Store} {ref : Ref} {v w : Value}

/-- Keys are hashable, and they are apart where one is steady. -/
structure WellKeyed (s : Store) : Prop where
  hashable : ∀ ref, ∀ v ∈ (s.cell ref).keys, s.checkHashable v = .ok ()
  apart : ∀ ref, (s.cell ref).keys.Pairwise fun v w => s.EitherSteady v w → s.Apart v w

/-! ## What a step does to keys -/

/-- The keys after a write: as they were, or with a new one that equals none of them. -/
theorem keys_putEntry (s : Store) (key value : Value) (entries : List (Value × Value)) :
    (s.putEntry key value entries).map Prod.fst = entries.map Prod.fst ∨
    (s.putEntry key value entries).map Prod.fst = entries.map Prod.fst ++ [key] ∧
      ∀ v ∈ entries.map Prod.fst, s.equals key v = false := by
  induction entries with
  | nil => exact .inr ⟨rfl, nofun⟩
  | cons entry rest ih =>
    obtain ⟨other, old⟩ := entry
    rw [putEntry]
    cases equal : s.equals key other with
    | true => exact .inl rfl
    | false =>
      rcases ih with same | ⟨more, unequal⟩
      · exact .inl (congrArg (other :: ·) same)
      · exact .inr ⟨congrArg (other :: ·) more, List.forall_mem_cons.2 ⟨equal, unequal⟩⟩

/-- How the keys of a cell come about in a step: some of a cell before it, or those with a new one
that equals none of them. -/
inductive KeysFrom (s : Store) (keys : List Value) : Prop
  | some (old : Ref) (sublist : keys.Sublist (s.cell old).keys)
  | more (old : Ref) (key : Value) (eq : keys = (s.cell old).keys ++ [key]) (has : s.Has key)
      (hashable : s.checkHashable key = .ok ())
      (unequal : ∀ v ∈ (s.cell old).keys, s.equals key v = false)

theorem keysFrom_nil : s.KeysFrom [] := .some ⟨0⟩ (List.nil_sublist _)

/-- After a write, keys are those of before or those that are written. -/
theorem keysFrom_write {c : Cell} (written : s.KeysFrom c.keys) (other : Ref) :
    s.KeysFrom ((s.write ref c).cell other).keys := by
  by_cases same : ref = other
  · subst same
    by_cases inside : ref.index < s.size
    · rwa [cell_write_self s c inside]
    · rw [write_of_size_le (Nat.not_lt.1 inside)]
      exact .some ref (.refl _)
  · rw [cell_write_other s c same]
    exact .some other (.refl _)

theorem Step.keysFrom (h : Step s t) (ref : Ref) : s.KeysFrom (t.cell ref).keys := by
  cases h with
  | @alloc c fresh has =>
    by_cases inside : ref.index < (s.alloc c).2.size
    · rcases lt_size_or_eq_of_alloc inside with old | rfl
      · rw [cell_alloc_other s c old]
        exact .some ref (.refl _)
      · rw [cell_alloc_self]
        have none (keys : List Value) (nil : keys = []) : s.KeysFrom keys := by
          rw [nil]
          exact keysFrom_nil
        cases c with
        | set items => exact none _ fresh.2
        | dict entries =>
          rcases fresh.2 with nil | ⟨old, flag, cell⟩
          · exact none _ (congrArg (List.map Prod.fst) nil)
          · refine .some old ?_
            rw [cell]
            exact .refl _
        | _ => exact none _ rfl
    · rw [cell_of_size_le (Nat.not_lt.1 inside)]
      exact keysFrom_nil
  | list cell =>
    refine keysFrom_write ?_ ref
    exact keysFrom_nil
  | @enter set items v cell hashable missing has =>
    refine keysFrom_write (.more set v ?_ has hashable fun w isItem => ?_) ref
    · rw [cell]
      rfl
    · rw [cell] at isItem
      exact Bool.eq_false_iff.2 (List.any_eq_false.1 missing w isItem)
  | @put dict entries key value cell hashable hasKey =>
    refine keysFrom_write ?_ ref
    rcases s.keys_putEntry key value entries with same | ⟨more, unequal⟩
    · refine .some dict ?_
      rw [cell]
      rw [Cell.keys, Cell.keys, same]
    · refine .more dict key ?_ hasKey hashable ?_
      · rw [cell]
        exact more
      · rw [cell]
        exact unequal
  | @erase dict entries key cell =>
    refine keysFrom_write (.some dict ?_) ref
    rw [cell]
    exact (List.eraseP_sublist).map Prod.fst
  | clear cell =>
    refine keysFrom_write ?_ ref
    exact keysFrom_nil
  | freeze v =>
    refine .some ref ?_
    rcases (freeze_flagged s v).cell ref with same | marked
    · rw [same]
    · rw [marked]
      cases s.cell ref <;> exact .refl _

/-! ## Steps keep keys apart -/

/-- What is apart stays apart, where one is steady. -/
theorem apart_iff (evolves : s.Evolves t) (aged : s.Aged) (has : s.Has v) (has' : s.Has w)
    (h : s.EitherSteady v w) : t.Apart v w ↔ s.Apart v w := by
  rw [Apart, Apart, equals_eq evolves aged has has' h, equals_eq evolves aged has' has h.symm]

theorem Step.wellKeyed (h : Step s t) (closed : s.Closed) (aged : s.Aged) (named : s.Named)
    (before : s.WellKeyed) : t.WellKeyed := by
  have has {ref : Ref} {v : Value} (isKey : v ∈ (s.cell ref).keys) : s.Has v :=
    closed ref v (Cell.held_of_keys isKey)
  have hashable {v : Value} (has : s.Has v) (hashable : s.checkHashable v = .ok ()) :
      t.checkHashable v = .ok () := by
    rw [checkHashable_eq aged h.evolves has, hashable]
  have apart {v w : Value} (has : s.Has v) (has' : s.Has w)
      (apart : s.EitherSteady v w → s.Apart v w) (later : t.EitherSteady v w) : t.Apart v w := by
    have either : s.EitherSteady v w := later.imp (steady_iff h.evolves aged has).1
      (steady_iff h.evolves aged has').1
    exact (apart_iff h.evolves aged has has' either).2 (apart either)
  constructor
  · intro ref v isKey
    rcases h.keysFrom ref with ⟨old, sublist⟩ | ⟨old, key, eq, hasKey, isHashable, -⟩
    · have wasKey := sublist.subset isKey
      exact hashable (has wasKey) (before.hashable old v wasKey)
    · rw [eq] at isKey
      rcases List.mem_append.1 isKey with wasKey | isNew
      · exact hashable (has wasKey) (before.hashable old v wasKey)
      · rw [List.mem_singleton.1 isNew]
        exact hashable hasKey isHashable
  · intro ref
    have kept (old : Ref) :
        (s.cell old).keys.Pairwise fun v w => t.EitherSteady v w → t.Apart v w :=
      (before.apart old).imp_of_mem fun isKey isKey' => apart (has isKey) (has isKey')
    rcases h.keysFrom ref with ⟨old, sublist⟩ | ⟨old, key, eq, hasKey, -, unequal⟩
    · exact (kept old).sublist sublist
    · rw [eq]
      refine List.pairwise_append.2
        ⟨kept old, List.pairwise_singleton _ _, fun v isKey w isNew => ?_⟩
      rw [List.mem_singleton.1 isNew]
      refine apart (has isKey) hasKey fun either => ?_
      have found := unequal v isKey
      exact ⟨by rw [equals_comm aged named (has isKey) hasKey either, found], found⟩

/-- Names that are distinct were so before. -/
theorem Evolves.named (h : s.Evolves t) (named : t.Named) : s.Named := by
  intro ref
  by_cases inside : ref.index < s.size
  · cases container : (s.cell ref).isContainer with
    | true =>
      rw [names_of_isContainer container]
      exact List.nodup_nil
    | false =>
      rw [← h.cell_of_not_container inside container]
      exact named ref
  · rw [cell_of_size_le (Nat.not_lt.1 inside)]
    exact List.nodup_nil

theorem Evolves.wellKeyed (h : s.Evolves t) (named : t.Named) (sound : s.Sound)
    (before : s.WellKeyed) : t.WellKeyed := by
  induction h with
  | refl => exact before
  | tail evolves step ih =>
    have sound := Evolves.sound evolves sound
    have named := step.evolves.named named
    exact step.wellKeyed sound.closed sound.aged named (ih named)

/-- In a store in use, keys are hashable, and apart where one is steady. -/
theorem Reachable.wellKeyed (h : s.Reachable) : s.WellKeyed := by
  have named := h.named
  obtain ⟨start, none, history⟩ := h
  have sound := sound_of_size_eq_zero none
  have cell (ref : Ref) : start.cell ref = .tuple [] :=
    cell_of_size_le (none ▸ Nat.zero_le ref.index)
  refine (history.evolves sound.closed).wellKeyed named sound ⟨fun ref v isKey => ?_, fun ref => ?_⟩
  · rw [cell ref] at isKey
    cases isKey
  · rw [cell ref]
    exact .nil

/-- In a store in use, no two keys of a dict and no two elements of a set are equal of which one is
steady. Whatever is done later, a key that was accepted stays so, and two values of which one is
steady stay equal or unequal. -/
theorem Reachable.keys_apart (h : s.Reachable) :
    (∀ ref, (s.cell ref).keys.Pairwise fun v w => s.EitherSteady v w → s.Apart v w) ∧
    ∀ t, History s t →
      (∀ v, s.Has v → t.checkHashable v = s.checkHashable v) ∧
      ∀ v w, s.Has v → s.Has w → s.EitherSteady v w → t.equals v w = s.equals v w := by
  have aged := h.sound.aged
  refine ⟨h.wellKeyed.apart, fun t history => ?_⟩
  have evolves := h.evolves history
  exact ⟨fun v has => checkHashable_eq aged evolves has,
    fun v w has has' either => equals_eq evolves aged has has' either⟩

/-- A set of two records, of which one is tagged by a list. -/
def labelled : Store := empty.after
  [.newList [], .newRecord (.string "point") [("x", .int 1)],
    .newRecord (.object ⟨0⟩) [("x", .int 1)], .newSet [.object ⟨1⟩, .object ⟨2⟩]]

theorem reachable_labelled : labelled.Reachable :=
  reachable_empty.after ⟨⟨by decide, nofun⟩, ⟨by decide, nofun⟩, ⟨by decide, nofun⟩,
    ⟨by decide, nofun⟩, trivial⟩

/-- The two elements never become equal, whatever is done to the list. -/
theorem keys_apart_labelled : labelled.Reachable ∧
    (labelled.cell ⟨3⟩).keys = [.object ⟨1⟩, .object ⟨2⟩] ∧
    labelled.Apart (.object ⟨1⟩) (.object ⟨2⟩) ∧
    ∀ t, History labelled t → t.equals (.object ⟨1⟩) (.object ⟨2⟩) = false := by
  have keys : (labelled.cell ⟨3⟩).keys = [.object ⟨1⟩, .object ⟨2⟩] := by decide +kernel
  have steady : labelled.Steady (.object ⟨1⟩) := by
    refine .plain rfl fun v part => ?_
    have scalars : ∀ v ∈ (labelled.cell ⟨1⟩).compared, v.identity? = none := by decide
    exact .scalar (scalars v part)
  obtain ⟨apart, later⟩ := reachable_labelled.keys_apart
  have here : labelled.Apart (.object ⟨1⟩) (.object ⟨2⟩) := by
    have pairs := apart ⟨3⟩
    rw [keys] at pairs
    exact List.pairwise_pair.1 pairs (.inl steady)
  refine ⟨reachable_labelled, keys, here, fun t history => ?_⟩
  rw [(later t history).2 _ _ (by decide) (by decide) (.inl steady)]
  exact here.1

/-- Two records tagged by lists, which are keys of a dict and elements of a set while the lists
become the same. -/
def relabelled : Store := empty.after
  [.newList [], .newList [.int 1], .newRecord (.object ⟨0⟩) [], .newRecord (.object ⟨1⟩) [],
    .newDict [(.object ⟨2⟩, .int 1), (.object ⟨3⟩, .int 2)], .newSet [.object ⟨2⟩, .object ⟨3⟩],
    .push ⟨0⟩ (.int 1)]

/-- The keys of a dict, and the elements of a set, become equal when only a list is changed that
tags them. -/
theorem keys_meet : relabelled.Reachable ∧
    (relabelled.cell ⟨4⟩).keys = [.object ⟨2⟩, .object ⟨3⟩] ∧
    (relabelled.cell ⟨5⟩).keys = [.object ⟨2⟩, .object ⟨3⟩] ∧
    relabelled.checkHashable (.object ⟨2⟩) = .ok () ∧
    relabelled.checkHashable (.object ⟨3⟩) = .ok () ∧
    relabelled.equals (.object ⟨2⟩) (.object ⟨3⟩) = true := by
  refine ⟨reachable_empty.after ⟨⟨by decide, nofun⟩, ⟨by decide, nofun⟩, ⟨by decide, nofun⟩,
    ⟨by decide, nofun⟩, ⟨by decide, nofun⟩, ⟨by decide, nofun⟩, ⟨by decide, nofun⟩, trivial⟩, ?_⟩
  exact ⟨by decide +kernel, by decide +kernel, by rfl, by rfl, by decide +kernel⟩

end Store
end Interchange
