import Interchange.Proofs.Crossing.Members
import Interchange.Proofs.Script.Depiction
import Interchange.Proofs.Store.WellKeyed

/-!
# What becomes of entries

An entry of a dict becomes a member of an object of a JSON text, or a property of an object of a
script. Either way it goes by the text of its key, and so there are as many names as entries exactly
when no two keys have the same text (`Store.Reachable.entries_told`). The texts are not the same on
the two ways: a member is named by the key as JSON has it, and a property by the key as it is shown.
-/

namespace Interchange

open Store

namespace Script

/-- The properties that a script sees for entries. -/
structure DictShown (s : Store) (heap : Array Object) (entries : List (Value × Value))
    (properties : List (WideString × Datum)) : Prop where
  /-- Every property is an entry. -/
  listed : ∀ property ∈ properties, ∃ entry ∈ entries,
    label? s entry.1 = some property.1 ∧ Depicts s heap entry.2 property.2
  /-- No name is missing. -/
  named : ∀ entry ∈ entries, label? s entry.1 ∈ properties.map fun property => some property.1
  distinct : (properties.map Prod.fst).Nodup
  /-- There are as many as entries exactly when the texts of the keys are distinct. -/
  whole : properties.length = entries.length ↔ (entries.map fun entry => s.text? entry.1).Nodup

/-- The parts of a cell that a script sees. -/
inductive Displays (s : Store) (ref : Ref) : Value → Prop
  | item {items : List Value} {v : Value} (anatomy : s.anatomy ref = .sequence items)
      (isItem : v ∈ items) : Displays s ref v
  | member {members : List (Option WideString × Value)} {member : Option WideString × Value}
      (cell : members? s (s.cell ref) = some members) (isMember : member ∈ members) :
      Displays s ref member.2

variable {s : Store} {heap : Array Object} {ref : Ref} {v w : Value} {d : Datum}

/-- Names are distinct when texts are. -/
theorem nodup_labels_iff {entries : List (Value × Value)} :
    (entries.map fun entry => label? s entry.1).Nodup ↔
      (entries.map fun entry => s.text? entry.1).Nodup := by
  have injective : Function.Injective (Option.map WideString.text) :=
    Option.map_injective fun _ _ => WideString.text.inj
  rw [← List.nodup_map_iff injective, List.map_map]
  rfl

theorem members?_of_sequence {items : List Value} (anatomy : s.anatomy ref = .sequence items) :
    members? s (s.cell ref) = none := by
  rw [Store.anatomy] at anatomy
  cases cell : s.cell ref with
  | list | tuple | set => rfl
  | _ => rw [cell] at anatomy; cases anatomy

/-- A script value stands for a part of a cell, too. -/
theorem Depicts.exists_part (depicts : Depicts s heap (.object ref) d)
    (displays : Displays s ref v) : ∃ part, Depicts s heap v part := by
  cases depicts with
  | sequence anatomy length each =>
    cases displays with
    | item anatomy' isItem =>
      rw [anatomy] at anatomy'
      cases anatomy'
      obtain ⟨part, paired⟩ := exists_pair_of_mem length isItem
      exact ⟨part, each _ paired⟩
    | member cell =>
      rw [members?_of_sequence anatomy] at cell
      cases cell
  | record cell length _ values =>
    cases displays with
    | item anatomy =>
      rw [members?_of_sequence anatomy] at cell
      cases cell
    | member cell' isMember =>
      rw [cell] at cell'
      cases cell'
      obtain ⟨property, paired⟩ := exists_pair_of_mem length isMember
      exact ⟨property.2, values _ paired⟩
  | function cell | mapping cell =>
    cases displays with
    | item anatomy => simp [Store.anatomy, cell] at anatomy
    | member cell' => rw [cell] at cell'; cases cell'

theorem Depicts.exists_inside (depicts : Depicts s heap v d)
    (inside : Inside (Displays s) v w) : ∃ part, Depicts s heap w part := by
  induction inside using Relation.ReflTransGen.head_induction_on generalizing d with
  | refl => exact ⟨d, depicts⟩
  | head step _ ih =>
    obtain ⟨ref, rfl, displays⟩ := step
    obtain ⟨part, depicts⟩ := depicts.exists_part displays
    exact ih depicts

/-- A dict is an object with its entries as properties, but where a text is taken for the name of
the prototype. -/
theorem Depicts.dictShown {entries : List (Value × Value)} {frozen : Bool}
    (depicts : Depicts s heap (.object ref) d) (cell : s.cell ref = .dict entries frozen)
    (plain : ∀ entry ∈ entries, s.text? entry.1 ≠ some prototypeName) :
    ∃ place properties, d = .object place ∧
      heap[place.index]? = some (.ofProperties properties) ∧
      DictShown s heap entries properties := by
  obtain ⟨place, pairs, rfl, each, there⟩ := Depicts.of_dict cell depicts
  have labels : entries.map (fun entry => label? s entry.1) = pairs.map fun pair => some pair.1 :=
    map_eq_of_forall₂ each fun _ _ both => both.1
  refine ⟨place, written pairs, rfl, there fun isName => ?_, fun property isProperty => ?_,
    fun entry isEntry => ?_, nodup_written pairs, ?_⟩
  · obtain ⟨pair, isPair, same⟩ := List.mem_map.1 isName
    obtain ⟨entry, isEntry, both⟩ := exists_left each isPair
    exact plain entry isEntry (label?_eq_some_iff.1 (both.1.trans (congrArg some same)))
  · have looked := lookup_of_mem (nodup_written pairs) isProperty
    rw [lookup_written] at looked
    exact exists_left each (List.mem_reverse.1 (mem_of_lookup looked))
  · obtain ⟨pair, isPair, both⟩ := exists_right each isEntry
    have isName := mem_map_fst_written.2 (List.mem_map_of_mem (f := Prod.fst) isPair)
    obtain ⟨property, isProperty, same⟩ := List.mem_map.1 isName
    exact List.mem_map.2 ⟨property, isProperty, (congrArg some same).trans both.1.symm⟩
  · rw [← nodup_labels_iff, labels, nodup_some_names, each.length_eq, length_written_iff]

/-- The objects on a heap for the dicts inside a value. -/
structure ShowsDicts (s : Store) (heap : Array Object) (v : Value) : Prop where
  /-- Everything inside has something that stands for it. -/
  inside : ∀ w, Inside (Displays s) v w → ∃ part, Depicts s heap w part
  /-- What stands for a dict has a property for each text of a key. The one text that a script does
  not take for the name of a property is left out of account. -/
  dicts : ∀ ref entries frozen d, s.cell ref = .dict entries frozen →
    Depicts s heap (.object ref) d →
    (∀ entry ∈ entries, s.text? entry.1 ≠ some prototypeName) →
    ∃ place properties, d = .object place ∧
      heap[place.index]? = some (.ofProperties properties) ∧ DictShown s heap entries properties

theorem Depicts.showsDicts (depicts : Depicts s heap v d) : ShowsDicts s heap v :=
  ⟨fun _ inside => depicts.exists_inside inside, fun _ _ _ _ cell depicts plain =>
    depicts.dictShown cell plain⟩

end Script

namespace Store

open Script

variable {s : Store}

/-- Where a value is written as a JSON text, its dicts are objects whose members go by the texts of
the keys, and where it becomes a script value, they are objects whose properties do. -/
theorem Reachable.entries_told (reachable : s.Reachable) :
    (∀ v text, s.toJsonText v = .ok text →
      ∃ tree, s.Writes v tree ∧ tree.compact = text ∧ s.WritesDicts v tree) ∧
    ∀ session v d later, session.store = s → (ofValue v).runIn session = (.ok d, later) →
      later.store = s ∧ Depicts s later.heap v d ∧ ShowsDicts s later.heap v := by
  refine ⟨fun v text written => ?_, fun session v d later same shown => ?_⟩
  · obtain ⟨tree, writes, same⟩ := toJsonText_ok written
    exact ⟨tree, writes, same, writes.writesDicts reachable.wellKeyed reachable.named⟩
  · obtain ⟨grows, depicts⟩ := depicts_ofValue shown
    obtain sameStore : later.store = s := grows.store.trans same
    rw [sameStore] at depicts
    exact ⟨sameStore, depicts, depicts.showsDicts⟩

/-- A dict in a dict, of which one key is no text. -/
def assorted : Store := empty.after
  [.newDict [(.string "x", .nothing)], .newDict [(.int 1, .object ⟨0⟩), (.string "b", .float .nan)]]

theorem reachable_assorted : assorted.Reachable :=
  reachable_empty.after ⟨⟨by decide, nofun⟩, ⟨by decide, nofun⟩, trivial⟩

/-- Both entries of the outer dict are there, in the text and on the heap. -/
theorem entries_told_assorted : assorted.Reachable ∧
    (∃ (tree : Json) (members : List (String × Json)),
      assorted.toJsonText (.object ⟨1⟩) = .ok tree.compact ∧ tree.Has (.object members) ∧
      members.length = 2 ∧ (members.map Prod.fst).Nodup) ∧
    ∃ (place : Script.Place) (later : Session) (properties : List (WideString × Datum)),
      (ofValue (.object ⟨1⟩)).runIn { store := assorted } = (.ok (.object place), later) ∧
      later.heap[place.index]? = some (.ofProperties properties) ∧ properties.length = 2 := by
  have text : assorted.toJsonText (.object ⟨1⟩) =
    .ok "\x7b\"1\":\x7b\"x\":null\x7d,\"b\":null\x7d" := by decide +kernel
  have cell : assorted.cell ⟨1⟩ =
    .dict [(.int 1, .object ⟨0⟩), (.string "b", .float .nan)] false := rfl
  obtain ⟨json, script⟩ := reachable_assorted.entries_told
  refine ⟨reachable_assorted, ?_, ?_⟩
  · obtain ⟨tree, -, same, writes⟩ := json _ _ text
    obtain ⟨members, has, -, written⟩ := writes.dicts ⟨1⟩ _ .refl (by rw [anatomy, cell])
    obtain ⟨count, distinct⟩ := written.whole.2 (by decide +kernel)
    exact ⟨tree, members, same ▸ text, has, count, distinct⟩
  · obtain ⟨place, later, ran⟩ : ∃ place later,
        (ofValue (.object ⟨1⟩)).runIn { store := assorted } = (.ok (.object place), later) :=
      ⟨_, _, rfl⟩
    obtain ⟨-, depicts, shows⟩ := script _ _ _ _ rfl ran
    obtain ⟨_, properties, ⟨⟩, there, shown⟩ :=
      shows.dicts ⟨1⟩ _ _ _ cell depicts (by decide +kernel)
    exact ⟨place, later, properties, ran, there, shown.whole.2 (by decide +kernel)⟩

/-- A dict with two keys of the same text. -/
def twofold : Store := empty.after
  [.newDict [(.int 1, .string "a"), (.string "1", .string "b")]]

/-- The text has the name twice, and the script has only the last entry. -/
theorem texts_meet : twofold.Reachable ∧
    twofold.cell ⟨0⟩ = .dict [(.int 1, .string "a"), (.string "1", .string "b")] false ∧
    twofold.toJsonText (.object ⟨0⟩) = .ok "\x7b\"1\":\"a\",\"1\":\"b\"\x7d" ∧
    (∃ members, twofold.Writes (.object ⟨0⟩) (.object members) ∧
      ¬ (members.map Prod.fst).Nodup) ∧
    ∃ place later, (ofValue (.object ⟨0⟩)).runIn { store := twofold } =
        (.ok (.object place), later) ∧
      later.heap[place.index]? = some (.ofProperties [("1", .string "b")]) := by
  refine ⟨reachable_empty.after ⟨⟨by decide, nofun⟩, trivial⟩, rfl, by decide +kernel, ?_, ?_⟩
  · exact ⟨[("1", .string "a"), ("1", .string "b")], ⟨_, rfl, rfl⟩, by decide⟩
  · exact ⟨_, _, rfl, rfl⟩

end Store
end Interchange
