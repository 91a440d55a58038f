import Interchange.Proofs.Mapping.Interleaving

/-!
# Entries of another dict

An update writes the entries of another dict one after the other, each when its value has passed the
search for shared mappings. It ends at the first entry that is refused, and what was written before
stays written (`Mapping.Merges`). So an update that fails leaves the entries in front of the refused
one in the mapping (`Mapping.Updates`), and the mapping is as it was exactly when it held all of them
already (`Reachable.update_outcome`).
-/

namespace Interchange

open Store

namespace Store

variable {s : Store} {ref : Ref}

/-- Writing a cell as it is changes nothing. -/
theorem write_cell (s : Store) (ref : Ref) : s.write ref (s.cell ref) = s := by
  by_cases inside : ref.index < s.cells.size
  · simp only [write, cell, Array.getD_eq_getD_getElem?, Array.getElem?_eq_getElem inside,
      Option.getD_some, Array.setIfInBounds_def, inside, ↓reduceDIte, Array.set_getElem_self]
  · exact write_of_size_le (Nat.not_lt.1 inside) _

/-- Putting the value that is there changes nothing. -/
theorem putEntry_of_lookup? {key value : Value} {entries : List (Value × Value)}
    (found : s.lookup? key entries = some value) : s.putEntry key value entries = entries := by
  induction entries with
  | nil => cases found
  | cons entry rest ih =>
    obtain ⟨other, old⟩ := entry
    rw [lookup?_cons] at found
    rw [putEntry]
    cases same : s.equals key other with
    | true =>
      rw [same, if_pos rfl] at found
      rw [if_pos rfl, Option.some.inj found]
    | false =>
      rw [same, if_neg Bool.false_ne_true] at found
      rw [if_neg Bool.false_ne_true, ih found]

end Store

namespace Mapping

variable {s t : Store} {d : Ref} {op : String} {entry : Value × Value}
  {entries stored : List (Value × Value)}

/-! ## Where a merge ends -/

/-- Why an entry is not written: its value leads to a shared mapping, or its key is not hashable, or
the dict takes no entries, or the look-up of the key does not end. -/
inductive Stops (d : Ref) (op : String) (s : Store) (entry : Value × Value) : Fault → Prop
  | nested {found : String} (isFound : s.findMapping? entry.2 = some found) :
      Stops d op s entry (.unsupported op found)
  | unhashable {fault : Fault} (refused : s.checkHashable entry.1 = .error fault) :
      Stops d op s entry fault
  | closed (none : s.findMapping? entry.2 = none) (shut : ∀ old, s.cell d ≠ .dict old false) :
      Stops d op s entry (.frozen "insert" "dict")
  | astray {old : List (Value × Value)} (none : s.findMapping? entry.2 = none)
      (cell : s.cell d = .dict old false)
      (endless : s.lookUpEnds entry.1 (old.map Prod.fst) = false) : Stops d op s entry .endless

/-- Entries are written up to the first that is refused. -/
inductive Merges (d : Ref) (op : String) (s : Store) (entries : List (Value × Value)) :
    Except Fault Unit × Store → Prop
  | done {t : Store} (puts : Puts d s entries t) : Merges d op s entries (.ok (), t)
  | stopped {t : Store} {stored later : List (Value × Value)} {entry : Value × Value}
      {fault : Fault} (isEntries : entries = stored ++ entry :: later) (puts : Puts d s stored t)
      (stops : Stops d op t entry fault) : Merges d op s entries (.error fault, t)

/-- What a merge does with one entry. -/
def mergeEntry (d : Ref) (op : String) (entry : Value × Value) : Op Unit := do
  checkStorable op entry.2
  Dict.insert d entry.1 entry.2

theorem merge_cons (d : Ref) (op : String) (entry : Value × Value) (rest : List (Value × Value)) :
    merge d op (entry :: rest) = (do mergeEntry d op entry; merge d op rest) := rfl

theorem runOn_mergeEntry : (mergeEntry d op entry).runOn s = match s.findMapping? entry.2 with
    | some found => (.error (.unsupported op found), s)
    | none => (Dict.insert d entry.1 entry.2).runOn s := by
  have checked : (checkStorable op entry.2).runOn s = (s.checkStorable op entry.2, s) := by
    rw [checkStorable, Op.runOn_bind, Op.runOn_get]
    exact Op.runOn_ofExcept _
  rw [mergeEntry, Op.runOn_bind, checked, Store.checkStorable]
  cases s.findMapping? entry.2 <;> rfl

/-- An entry is put, or it is refused and nothing has changed. -/
theorem puts_or_stops (d : Ref) (op : String) (s : Store) (entry : Value × Value) :
    (∃ t, (mergeEntry d op entry).runOn s = (.ok (), t) ∧ Puts d s [entry] t) ∨
      ∃ fault, (mergeEntry d op entry).runOn s = (.error fault, s) ∧ Stops d op s entry fault := by
  rw [runOn_mergeEntry]
  cases isFound : s.findMapping? entry.2 with
  | some found => exact .inr ⟨_, rfl, .nested isFound⟩
  | none =>
    dsimp only
    rw [Dict.runOn_insert]
    cases hashable : s.checkHashable entry.1 with
    | error fault => exact .inr ⟨fault, rfl, .unhashable hashable⟩
    | ok _ =>
      by_cases shut : ∀ old, s.cell d ≠ .dict old false
      · refine .inr ⟨.frozen "insert" "dict", ?_, .closed isFound shut⟩
        cases cell : s.cell d with
        | dict old flag =>
          cases flag with
          | true => rfl
          | false => exact absurd cell (shut old)
        | _ => rfl
      · obtain ⟨old, cell⟩ := not_forall_not.1 shut
        rw [cell]
        dsimp only
        cases ends : s.lookUpEnds entry.1 (old.map Prod.fst) with
        | true => exact .inl ⟨_, rfl, .cons cell isFound hashable .nil⟩
        | false => exact .inr ⟨.endless, rfl, .astray isFound cell ends⟩

theorem Merges.cons {m : Store} {result : Except Fault Unit × Store}
    (h : Merges d op m entries result)
    (puts : Puts d s [entry] m) : Merges d op s (entry :: entries) result := by
  cases h with
  | done later => exact .done (puts.append later)
  | stopped isEntries later stops =>
    exact .stopped (congrArg (List.cons entry) isEntries) (puts.append later) stops

theorem merges (d : Ref) (op : String) (s : Store) (entries : List (Value × Value)) :
    Merges d op s entries ((merge d op entries).runOn s) := by
  induction entries generalizing s with
  | nil => exact .done .nil
  | cons entry rest ih =>
    rw [merge_cons, Op.runOn_bind]
    rcases puts_or_stops d op s entry with ⟨m, isPut, puts⟩ | ⟨fault, refused, stops⟩
    · rw [isPut]
      exact (ih m).cons puts
    · rw [refused]
      exact .stopped (List.nil_append _).symm .nil stops

/-! ## What has been put -/

theorem Puts.evolves (h : Puts d s entries t) (has : ∀ v ∈ entryParts entries, s.Has v) :
    s.Evolves t := by
  induction h with
  | nil => exact .refl _
  | cons cell _ hashable _ ih =>
    rw [entryParts_cons] at has
    obtain ⟨hasKey, has⟩ := List.forall_mem_cons.1 has
    obtain ⟨hasValue, has⟩ := List.forall_mem_cons.1 has
    have step := Step.put cell hashable hasKey hasValue
    exact step.evolves.trans (ih fun v isPart => (has v isPart).mono step.size_le)

/-- A dict that takes no entries has taken none. -/
theorem Puts.eq_nil (h : Puts d s entries t) (shut : ∀ old, s.cell d ≠ .dict old false) :
    entries = [] ∧ t = s := by
  cases h with
  | nil => exact ⟨rfl, rfl⟩
  | cons cell => exact absurd cell (shut _)

/-- A dict that takes entries still does when it has taken some. -/
theorem Puts.open {old : List (Value × Value)} (h : Puts d s entries t)
    (cell : s.cell d = .dict old false) :
    ∃ held, t.cell d = .dict held false := by
  induction h generalizing old with
  | nil => exact ⟨old, cell⟩
  | cons isCell _ _ _ ih =>
    exact ih (cell_write_self _ _ (lt_size_of_isContainer (by rw [isCell]; rfl)))

/-- Entries that are there already are put without any change. -/
theorem Puts.eq_of_held (h : Puts d s stored t)
    (held : ∀ entry ∈ stored, s.lookup? entry.1 (s.dictEntries d) = some entry.2) : t = s := by
  induction h with
  | nil => rfl
  | @cons s t key value rest old cell _ _ _ ih =>
    obtain ⟨first, held⟩ := List.forall_mem_cons.1 held
    have entries := dictEntries_of_cell cell
    rw [entries] at first
    have same : s.write d (.dict (s.putEntry key value old) false) = s := by
      rw [putEntry_of_lookup? first, ← cell, write_cell]
    rw [same] at ih
    exact ih held

/-- What is left by entries with steady keys, which are compared as they were at the start. -/
theorem Puts.left_eq {start : Store} {old : List (Value × Value)} (h : Puts d s stored t)
    (cell : s.cell d = .dict old false)
    (evolves : start.Evolves s) (aged : start.Aged) (keys : start.Keys old)
    (has : ∀ v ∈ entryParts stored, start.Has v)
    (steady : ∀ entry ∈ stored, start.Steady entry.1) :
    t.dictEntries d = left start .nothing old (stored.map fun entry => .set entry.1 entry.2) := by
  induction h generalizing old with
  | nil => exact dictEntries_of_cell cell
  | @cons s t key value rest held isCell _ hashable _ ih =>
    cases isCell.symm.trans cell
    obtain ⟨steadyKey, steady⟩ := List.forall_mem_cons.1 steady
    rw [entryParts_cons] at has
    obtain ⟨hasKey, has⟩ := List.forall_mem_cons.1 has
    obtain ⟨hasValue, has⟩ := List.forall_mem_cons.1 has
    have put : s.putEntry key value held = start.putEntry key value held := by
      refine putEntry_congr fun other isKey => ?_
      obtain ⟨entry, isEntry, rfl⟩ := List.mem_map.1 isKey
      exact equals_eq evolves aged hasKey (keys entry isEntry).1 (.inl steadyKey)
    have step := Step.put cell hashable (evolves.has hasKey) (evolves.has hasValue)
    rw [checkHashable_eq aged evolves hasKey] at hashable
    rw [put] at step ih
    exact ih (cell_write_self s _ (lt_size_of_isContainer (by rw [cell]; rfl)))
      (evolves.trans step.evolves) (keys.putEntry hasKey hashable) has steady

/-- Entries of which no two have equal keys leave a dict as it was exactly when it held them. -/
theorem Puts.dictEntries_eq_iff (h : Puts d s stored t) (reachable : s.Reachable)
    (has : ∀ v ∈ entryParts stored, s.Has v) (apart : (stored.map Prod.fst).Pairwise s.Apart)
    (steady : ∀ key ∈ (s.dictEntries d).map Prod.fst ++ stored.map Prod.fst, s.Steady key) :
    t.dictEntries d = s.dictEntries d ↔
      ∀ entry ∈ stored, s.lookup? entry.1 (s.dictEntries d) = some entry.2 := by
  refine ⟨fun same entry isStored => ?_, fun held => by rw [h.eq_of_held held]⟩
  cases h with
  | nil => cases isStored
  | @cons s t key value rest old cell none hashable next =>
    have whole : Puts d s ((key, value) :: rest) t := .cons cell none hashable next
    rw [dictEntries_of_cell cell] at same steady ⊢
    obtain ⟨steadyOld, steadyNew⟩ := List.forall_mem_append.1 steady
    have sound := reachable.sound
    have left := whole.left_eq cell (.refl s) sound.aged (sound.keys cell) has
      (List.forall_mem_map.1 steadyNew)
    rw [← same, left]
    refine lookup?_left_set (lawful_steady sound.aged reachable.named)
      (reachable.wellKeyed.tidy sound.closed cell steadyOld) (fun turn isTurn => ?_) ?_
      (List.mem_map_of_mem isStored)
    · obtain ⟨entry, isEntry, rfl⟩ := List.mem_map.1 isTurn
      exact ⟨has _ (mem_entryParts.2 ⟨entry, isEntry, .inl rfl⟩),
        steadyNew _ (List.mem_map_of_mem isEntry)⟩
    · exact List.pairwise_map.2 ((List.pairwise_map.1 apart).imp .inr)

/-! ## Updates -/

theorem runOn_update {ref other : Ref} {name : String} {flag : Bool}
    (cell : s.cell ref = .mapping name d flag) : (update ref other).runOn s =
      if flag then (.error (.frozen "update" name), s)
      else (merge d "update" (s.dictEntries other)).runOn s := by
  rw [update, Op.runOn_bind, runOn_read cell]
  cases flag <;> rfl

/-- How an update of a mapping over a dict ends, and the store that it leaves. -/
inductive Updates (s : Store) (name : String) (dict : Ref) (flag : Bool)
    (entries : List (Value × Value)) : Except Fault Value × Store → Prop
  /-- The mapping is frozen. -/
  | refused (frozen : flag = true) : Updates s name dict flag entries
      (.error (.frozen "update" name), s)
  /-- Only its dict is frozen, and the first value may be stored. -/
  | shut {entry : Value × Value} {later : List (Value × Value)} (loose : flag = false)
      (isEntries : entries = entry :: later) (frozen : (s.cell dict).isFrozen = true)
      (none : s.findMapping? entry.2 = none) : Updates s name dict flag entries
        (.error (.frozen "insert" "dict"), s)
  /-- A value leads to a shared mapping when the entries before it have been written. -/
  | nested {t : Store} {stored later : List (Value × Value)} {entry : Value × Value}
      {found : String} (loose : flag = false) (isEntries : entries = stored ++ entry :: later)
      (puts : Puts dict s stored t) (isFound : t.findMapping? entry.2 = some found) :
      Updates s name dict flag entries (.error (.unsupported "update" found), t)
  /-- The look-up of a key does not end when the entries before it have been written. -/
  | astray {t : Store} {stored later held : List (Value × Value)} {entry : Value × Value}
      (loose : flag = false) (isEntries : entries = stored ++ entry :: later)
      (puts : Puts dict s stored t) (none : t.findMapping? entry.2 = none)
      (under : t.cell dict = .dict held false)
      (endless : t.lookUpEnds entry.1 (held.map Prod.fst) = false) :
      Updates s name dict flag entries (.error .endless, t)
  /-- All entries have been written. -/
  | done {t : Store} (loose : flag = false) (puts : Puts dict s entries t) :
      Updates s name dict flag entries (.ok .nothing, t)

end Mapping

namespace Store

variable {s t : Store} {ref dict other : Ref} {name : String} {flag frozen : Bool}
  {entries : List (Value × Value)}

theorem updates_of_merges (sound : s.Sound) (cell : s.cell ref = .mapping name dict false)
    (keys : s.Keys entries) (has : ∀ v ∈ entryParts entries, s.Has v)
    {result : Except Fault Unit × Store} (merges : Mapping.Merges dict "update" s entries result) :
    Mapping.Updates s name dict false entries (result.1.map fun _ => .nothing, result.2) := by
  cases merges with
  | done puts => exact .done rfl puts
  | @stopped t stored later entry fault isEntries puts stops =>
    have hasStored : ∀ v ∈ entryParts stored, s.Has v := fun v isPart => by
      obtain ⟨entry, isEntry, isHalf⟩ := mem_entryParts.1 isPart
      exact has v (mem_entryParts.2 ⟨entry, isEntries ▸ List.mem_append_left _ isEntry, isHalf⟩)
    cases stops with
    | nested isFound => exact .nested rfl isEntries puts isFound
    | unhashable refused =>
      -- The keys of a dict were hashable when they were entered, and they stay so.
      obtain ⟨hasKey, hashable⟩ := keys entry (isEntries ▸ List.mem_append_right _ List.mem_cons_self)
      rw [checkHashable_eq sound.aged (puts.evolves hasStored) hasKey, hashable] at refused
      cases refused
    | astray none under endless => exact .astray rfl isEntries puts none under endless
    | closed none shut =>
      obtain ⟨old, flag, under, -⟩ := sound.wrapped ref name dict false cell
      cases flag with
      | true =>
        obtain ⟨rfl, rfl⟩ := puts.eq_nil fun others isOpen => by
          rw [under] at isOpen
          cases isOpen
        exact .shut rfl isEntries (by rw [under]; rfl) none
      | false =>
        obtain ⟨held, isOpen⟩ := puts.open under
        exact absurd isOpen (shut held)

/-- An update by the entries of a dict is refused when the mapping is frozen, or its dict is and there
is an entry. Else it writes the entries in their order up to the first whose value leads to a shared
mapping by then, or whose look-up does not end, and what it has written stays written. So an update
that fails has left the entries of the mapping as they were exactly when the mapping held all entries
in front of that one, each with the same value, if keys are compared without a look into a list, a
set or a dict. -/
theorem Reachable.update_outcome (reachable : s.Reachable)
    (cell : s.cell ref = .mapping name dict flag) (argument : s.cell other = .dict entries frozen)
    (call : Ref → List Value → Op Value) :
    Mapping.Updates s name dict flag entries
        ((Mapping.run call ref .update [.object other]).runOn s) ∧
      ∀ stored t, stored <+: entries → Mapping.Puts dict s stored t →
        (∀ key ∈ (s.dictEntries dict).map Prod.fst ++ entries.map Prod.fst, s.Steady key) →
        (t.dictEntries dict = s.dictEntries dict ↔
          ∀ entry ∈ stored, s.lookup? entry.1 (s.dictEntries dict) = some entry.2) := by
  have sound := reachable.sound
  have has : ∀ v ∈ entryParts entries, s.Has v := fun v isPart =>
    sound.closed other v (by rwa [argument])
  constructor
  · rw [Mapping.runOn_run_update argument, Op.runOn_bind, Mapping.runOn_update cell]
    cases flag with
    | true => exact .refused rfl
    | false =>
      have updates := updates_of_merges sound cell (sound.keys argument) has
        (Mapping.merges dict "update" s entries)
      rw [dictEntries_of_cell argument, if_neg Bool.false_ne_true]
      generalize (Mapping.merge dict "update" entries).runOn s = result at updates
      rcases result with ⟨_ | _, _⟩ <;> exact updates
  · intro stored t isFirst puts steady
    obtain ⟨steadyOld, steadyNew⟩ := List.forall_mem_append.1 steady
    have sublist := isFirst.sublist
    refine puts.dictEntries_eq_iff reachable (fun v isPart => ?_) ?_ ?_
    · obtain ⟨entry, isEntry, isHalf⟩ := mem_entryParts.1 isPart
      exact has v (mem_entryParts.2 ⟨entry, sublist.subset isEntry, isHalf⟩)
    · exact (reachable.wellKeyed.tidy sound.closed argument steadyNew).apart.sublist
        (sublist.map Prod.fst)
    · exact List.forall_mem_append.2 ⟨steadyOld, fun key isKey =>
        steadyNew key ((sublist.map Prod.fst).subset isKey)⟩

/-- Two mappings, and a dict of a number and of the second mapping. -/
def handed : Store :=
  empty.after [.newMapping "shared_dict", .newMapping "shared_dict",
    .newDict [(.string "a", .int 1), (.string "s", .object ⟨3⟩)]]

theorem reachable_handed : handed.Reachable :=
  reachable_empty.after ⟨⟨by decide, nofun⟩, ⟨by decide, nofun⟩, ⟨by decide, nofun⟩, trivial⟩

/-- The number is put before the mapping is found, and it was not there before. -/
theorem update_outcome_handed :
    handed.Reachable ∧ handed.cell ⟨1⟩ = .mapping "shared_dict" ⟨0⟩ false ∧
    handed.cell ⟨4⟩ = .dict [(.string "a", .int 1), (.string "s", .object ⟨3⟩)] false ∧
    Mapping.Updates handed "shared_dict" ⟨0⟩ false
      [(.string "a", .int 1), (.string "s", .object ⟨3⟩)]
      ((Mapping.run (fun _ _ => pure .nothing) ⟨1⟩ .update [.object ⟨4⟩]).runOn handed) ∧
    ∀ t, Mapping.Puts ⟨0⟩ handed [(.string "a", .int 1)] t →
      t.dictEntries ⟨0⟩ ≠ handed.dictEntries ⟨0⟩ := by
  have cell : handed.cell ⟨1⟩ = .mapping "shared_dict" ⟨0⟩ false := rfl
  have argument : handed.cell ⟨4⟩ =
    .dict [(.string "a", .int 1), (.string "s", .object ⟨3⟩)] false := rfl
  have outcome := reachable_handed.update_outcome cell argument fun _ _ => pure .nothing
  refine ⟨reachable_handed, cell, argument, outcome.1, fun t puts same => ?_⟩
  have steady : ∀ key ∈ [Value.string "a", .string "s"], handed.Steady key := by
    simp only [List.forall_mem_cons]
    exact ⟨.scalar rfl, .scalar rfl, nofun⟩
  have held := (outcome.2 _ t ⟨_, rfl⟩ puts steady).1 same _ List.mem_cons_self
  cases held

/-- An update fails and has written an entry. -/
theorem update_writes_part : handed.Reachable ∧
    ∃ t, (Mapping.run (fun _ _ => pure .nothing) ⟨1⟩ .update [.object ⟨4⟩]).runOn handed =
        (.error (.unsupported "update" "shared_dict"), t) ∧
      handed.dictEntries ⟨0⟩ = [] ∧ t.dictEntries ⟨0⟩ = [(.string "a", .int 1)] :=
  ⟨reachable_handed, _, rfl, rfl, rfl⟩

end Store
end Interchange
