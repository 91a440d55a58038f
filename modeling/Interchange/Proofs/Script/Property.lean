import Mathlib.Data.List.Induction
import Interchange.Proofs.Crossing.NormalForm
import Interchange.Script.Property

/-!
# Written properties

What becomes of the properties of a record that are written one after the other (`Script.written`):
there is one for each distinct name, with the last value of the name. Indices move to the front, but
nothing else is lost. A new record takes every name as its own property but the one name that stands
for its prototype (`put_record`).
-/

namespace Interchange.Script

open TextMap (lookup_cons)

variable {name other : WideString} {d : Datum} {properties entries : List (WideString × Datum)}

/-! ## One property -/

theorem any_name : (properties.any fun entry => entry.1 == name) = true ↔
    name ∈ properties.map Prod.fst := by
  simp

theorem map_fst_replaceProperty :
    (replaceProperty name d properties).map Prod.fst = properties.map Prod.fst := by
  rw [replaceProperty, List.map_map]
  refine List.map_congr_left fun entry _ => ?_
  rw [Function.comp_apply]
  split
  · next same => exact (beq_iff_eq.1 same).symm
  · rfl

theorem insertIndex_perm (index : Nat) :
    (insertIndex index name d properties).Perm ((name, d) :: properties) := by
  induction properties with
  | nil => exact .refl _
  | cons entry rest ih =>
    rw [insertIndex]
    split
    · split
      · exact (ih.cons entry).trans (.swap _ _ _)
      · exact .refl _
    · exact .refl _

/-- A new property is somewhere among the others. -/
theorem setProperty_perm (fresh : name ∉ properties.map Prod.fst) :
    (setProperty name d properties).Perm ((name, d) :: properties) := by
  rw [setProperty, if_neg (mt any_name.1 fresh)]
  split
  · exact insertIndex_perm _
  · exact List.perm_append_singleton _ _

theorem map_fst_setProperty (known : name ∈ properties.map Prod.fst) :
    (setProperty name d properties).map Prod.fst = properties.map Prod.fst := by
  rw [setProperty, if_pos (any_name.2 known), map_fst_replaceProperty]

theorem mem_map_fst_setProperty : other ∈ (setProperty name d properties).map Prod.fst ↔
    other = name ∨ other ∈ properties.map Prod.fst := by
  by_cases known : name ∈ properties.map Prod.fst
  · rw [map_fst_setProperty known, iff_or_self]
    rintro rfl
    exact known
  · rw [((setProperty_perm known).map Prod.fst).mem_iff, List.map_cons, List.mem_cons]

theorem nodup_setProperty (distinct : (properties.map Prod.fst).Nodup) :
    ((setProperty name d properties).map Prod.fst).Nodup := by
  by_cases known : name ∈ properties.map Prod.fst
  · rwa [map_fst_setProperty known]
  · exact ((setProperty_perm known).map Prod.fst).nodup_iff.2 (List.nodup_cons.2 ⟨known, distinct⟩)

theorem lookup_replaceProperty : (replaceProperty name d properties).lookup other =
    if other = name then (properties.lookup name).map fun _ => d else properties.lookup other := by
  induction properties with
  | nil => simp [replaceProperty]
  | cons entry rest ih =>
    rw [replaceProperty, List.map_cons, ← replaceProperty]
    by_cases here : entry.1 = name
    · rw [if_pos (beq_iff_eq.2 here), lookup_cons, ih, lookup_cons, lookup_cons, here,
        if_pos rfl]
      split_ifs <;> rfl
    · rw [if_neg (by rwa [beq_iff_eq]), lookup_cons, ih, lookup_cons, lookup_cons,
        if_neg (Ne.symm here)]
      split_ifs with same same'
      · exact absurd (same.symm.trans same') here
      all_goals rfl

theorem lookup_insertIndex (index : Nat) (fresh : name ∉ properties.map Prod.fst) :
    (insertIndex index name d properties).lookup other =
      if other = name then some d else properties.lookup other := by
  induction properties with
  | nil => exact lookup_cons
  | cons entry rest ih =>
    obtain ⟨differ, fresh⟩ := not_or.1 (mt List.mem_cons.2 fresh)
    rw [insertIndex]
    split
    · split
      · rw [lookup_cons, lookup_cons, ih fresh]
        split_ifs with same same'
        · exact absurd (same'.symm.trans same) differ
        all_goals rfl
      · exact lookup_cons
    · exact lookup_cons

theorem lookup_setProperty : (setProperty name d properties).lookup other =
    if other = name then some d else properties.lookup other := by
  rw [setProperty]
  split
  · next known =>
    obtain ⟨entry, isEntry, same⟩ := List.mem_map.1 (any_name.1 known)
    obtain ⟨old, found⟩ : ∃ old, properties.lookup name = some old := by
      rw [← Option.isSome_iff_exists, List.lookup_isSome_iff]
      exact ⟨entry, isEntry, beq_iff_eq.2 same.symm⟩
    rw [lookup_replaceProperty, found, Option.map_some]
  · next fresh =>
    have fresh := mt any_name.2 fresh
    split
    · exact lookup_insertIndex _ fresh
    · rw [List.lookup_append, lookup_cons, List.lookup_nil]
      split_ifs with same
      · have none : properties.lookup other = none := List.lookup_eq_none_iff.2 fun entry isEntry =>
          bne_iff_ne.2 fun known => fresh (List.mem_map.2 ⟨entry, isEntry, known ▸ same⟩)
        rw [none, Option.none_or]
      · rw [Option.or_none]

/-! ## Properties one after the other -/

/-- The properties of a new record after writes, one after the other. -/
def written (entries : List (WideString × Datum)) : List (WideString × Datum) :=
  entries.foldl (fun properties entry => setProperty entry.1 entry.2 properties) []

theorem written_concat (entries : List (WideString × Datum)) (entry : WideString × Datum) :
    written (entries ++ [entry]) = setProperty entry.1 entry.2 (written entries) :=
  List.foldl_concat ..

theorem mem_map_fst_written :
    name ∈ (written entries).map Prod.fst ↔ name ∈ entries.map Prod.fst := by
  induction entries using List.reverseRecOn with
  | nil => exact Iff.rfl
  | append_singleton entries entry ih =>
    rw [written_concat, mem_map_fst_setProperty, ih, List.map_append, List.mem_append,
      List.map_singleton, List.mem_singleton, or_comm]

theorem nodup_written (entries : List (WideString × Datum)) :
    ((written entries).map Prod.fst).Nodup := by
  induction entries using List.reverseRecOn with
  | nil => exact .nil
  | append_singleton entries entry ih =>
    rw [written_concat]
    exact nodup_setProperty ih

/-- A property has the last value of its name. -/
theorem lookup_written : (written entries).lookup name = entries.reverse.lookup name := by
  induction entries using List.reverseRecOn with
  | nil => rfl
  | append_singleton entries entry ih =>
    rw [written_concat, lookup_setProperty, ih, List.reverse_append, List.reverse_singleton,
      List.singleton_append, List.lookup_cons]
    by_cases same : name = entry.1
    · rw [if_pos same, beq_iff_eq.2 same]
    · rw [if_neg same, beq_false_of_ne same]

/-- There are as many properties as writes exactly when no name is written twice. -/
theorem length_written_iff :
    (written entries).length = entries.length ↔ (entries.map Prod.fst).Nodup := by
  have same := length_eq_iff_nodup (nodup_written entries) fun _ => mem_map_fst_written
  rwa [List.length_map, List.length_map] at same

/-- Where no name is written twice, every write is a property. -/
theorem written_perm (distinct : (entries.map Prod.fst).Nodup) :
    (written entries).Perm entries := by
  induction entries using List.reverseRecOn with
  | nil => exact .refl _
  | append_singleton entries entry ih =>
    rw [List.map_append, List.map_singleton] at distinct
    obtain ⟨distinct, -, apart⟩ := List.nodup_append.1 distinct
    have fresh : entry.1 ∉ (written entries).map Prod.fst := fun known =>
      apart _ (mem_map_fst_written.1 known) _ List.mem_cons_self rfl
    rw [written_concat]
    exact (setProperty_perm fresh).trans (((ih distinct).cons _).trans
      (List.perm_append_singleton _ _).symm)

/-- Names are distinct when the texts are that they are in step with. -/
theorem nodup_of_texts {α β : Type} {named : List (WideString × α)} {fields : List (String × β)}
    (each : List.Forall₂ (fun entry field => entry.1 = .text field.1) named fields)
    (distinct : (fields.map Prod.fst).Nodup) : (named.map Prod.fst).Nodup := by
  have same : named.map Prod.fst = (fields.map Prod.fst).map WideString.text := by
    rw [List.map_map]
    exact map_eq_of_forall₂ each fun _ _ same => same
  rw [same]
  exact distinct.map fun _ _ => WideString.text.inj

/-! ## New records -/

/-- What the prototype of records has under a name is a function, and it has no prototype itself. -/
theorem runIn_findProperty? (plain : name ≠ prototypeName) (s : Session) :
    (findProperty? (.builtin .recordPrototype) name).runIn s =
      (.ok (functionNamed? BuiltinFunction.ofRecords name), s) := by
  have own : Builtin.recordPrototype.own? name = functionNamed? BuiltinFunction.ofRecords name :=
    if_neg plain
  have found : (ownProperty? (.builtin .recordPrototype) name).runIn s =
      (.ok (functionNamed? BuiltinFunction.ofRecords name), s) := by
    rw [← own]
    rfl
  rw [findProperty?, Run.runIn_bind, Run.runIn_get]
  dsimp only
  rw [findPropertyWithin, Run.runIn_bind, found]
  cases functionNamed? BuiltinFunction.ofRecords name <;> rfl

/-- A record of the usual prototype takes a property under every name but one. -/
theorem runIn_put (plain : name ≠ prototypeName) (s : Session) :
    ((Object.ofProperties properties).put name d).runIn s =
      (.ok (.ofProperties (setProperty name d properties)), s) := by
  have own : (Object.ofProperties properties).own? name = (properties.lookup name).map .data := by
    rw [Object.own?, Object.ofProperties]
    cases properties.lookup name <;> rfl
  rw [Object.put, own]
  cases properties.lookup name with
  | some old => rfl
  | none =>
    have prototype : (Object.ofProperties properties).prototype = .builtin .recordPrototype := rfl
    rw [Option.map_none, prototype, Run.runIn_bind, runIn_findProperty? plain]
    cases name with
    | broken => rfl
    | text name =>
      rw [functionNamed?]
      cases BuiltinFunction.ofRecords.lookup name <;> rfl

end Interchange.Script
