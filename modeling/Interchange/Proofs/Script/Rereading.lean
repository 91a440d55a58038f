import Interchange.Proofs.Json.Written
import Interchange.Proofs.Script.Renaming

/-!
# Data that is read from its own JSON text

Data is written as a text whose tree is another host value than the data's own: every dict is an
object, and what it is read as goes by the texts of its keys. `Saves` says of a value that it is
written, and what holds of that which is read; what is read of data is a copy of it under those texts
(`Spellable.saves`).
-/

namespace Interchange

/-! ## Parts in step -/

open Store

namespace HostValue

/-- Entries whose keys go by different texts are written under these, in whatever order. -/
theorem toJson_ofPairs {pairs : List (HostValue × HostValue)} {members : List (String × Json)}
    (each : List.Forall₂ (fun pair member =>
      pair.1.keyText = member.1 ∧ pair.2.toJson = .ok member.2) pairs members)
    (distinct : (members.map Prod.fst).Nodup) :
    ∃ ordered, ordered.Perm members ∧ (ofPairs pairs).toJson = .ok (.object ordered) := by
  rcases ofPairs_cases pairs with ⟨named, rfl, byName⟩ | ⟨-, byKey⟩
  · have texts := List.forall₂_map_left_iff.1 each
    have names : named.map Prod.fst = members.map Prod.fst :=
      map_eq_of_forall₂ texts fun _ _ both => both.1
    obtain ⟨sorted, -⟩ := TextMap.ofList_of_distinct (names ▸ distinct)
    obtain ⟨ordered, texts, perm⟩ := List.perm_comp_forall₂ sorted texts
    refine ⟨ordered, perm, ?_⟩
    rw [byName, ofEntries, toJson, entriesToJson_of_forall₂ texts]
    rfl
  · refine ⟨members, .refl _, ?_⟩
    rw [byKey, toJson, pairsToJson_of_forall₂ each]
    rfl

/-- Members of different names are a map of what they are read as. -/
theorem ofJson_object {members : List (String × Json)} :
    ofJson (.object (TextMap.ofList members)) =
      map ((TextMap.ofList members).map fun member => (member.1, ofJson member.2)) := by
  rw [ofJson_object_of_ascending (TextMap.ascending_ofList members), ofJsonMembers_eq_map]

end HostValue

/-! ## Values in passing -/

namespace Script

open HostValue Json

variable {s : Store} {depth levels : Nat} {v : Value} {ref : Ref}

/-- The forms of a value in passing: a host value, its tree, and the tree that is read from the text
of that. -/
structure Passage where
  host : HostValue
  tree : Json
  read : Json

/-- The value is written, and something holds of what is read. -/
structure Passage.Carries (p : Passage) (s : Store) (depth : Nat) (v : Value)
    (Q : Store → Value → Prop) : Prop where
  unfolds : s.Unfolds v p.host
  made : p.host.toJson = .ok p.tree
  written : Json.Written depth p.tree p.read
  restores : (ofJson p.read).Restores Q

def Saves (s : Store) (depth : Nat) (v : Value) (Q : Store → Value → Prop) : Prop :=
  ∃ p : Passage, p.Carries s depth v Q

theorem Saves.imp {Q Q' : Store → Value → Prop} (saves : Saves s depth v Q)
    (weaker : ∀ u w, Q u w → Q' u w) : Saves s depth v Q' :=
  have ⟨p, carries⟩ := saves
  ⟨p, { carries with restores := carries.restores.imp weaker }⟩

/-- A scalar is read as itself. -/
theorem saves_scalar {h : HostValue} (unfolds : s.Unfolds v h) (jsonable : h.Jsonable depth)
    (scalar : h.scalar? = some v) :
    Saves s depth v fun u w => s.Keeps u → Renamed u s.keyText? v w := by
  obtain ⟨tree, read, made, back, written⟩ := jsonable.saved
  refine ⟨⟨h, tree, read⟩, unfolds, made, written, ?_⟩
  rw [back]
  exact restores_scalar scalar fun _ _ => .scalar (identity?_of_scalar? scalar)

variable {P : Value → Store → Value → Prop}

theorem saves_list {items : List Value} {frozen : Bool} (cell : s.cell ref = .list items frozen)
    (each : ∀ item ∈ items, Saves s depth item (P item)) :
    Saves s (depth + 1) (.object ref) fun u w => ∃ q others, w = .object q ∧
      u.cell q = .list others false ∧ List.Forall₂ (fun v w => P v u w) items others := by
  obtain ⟨parts, each⟩ := exists_forall₂ each
  have hosts : List.Forall₂ s.Unfolds items (parts.map (·.host)) :=
    List.forall₂_map_right_iff.2 (each.imp fun _ _ carries => carries.unfolds)
  have made : itemsToJson (parts.map (·.host)) = .ok (parts.map (·.tree)) := by
    refine itemsToJson_of_forall₂ (List.forall₂_map_left_iff.2 (List.forall₂_map_right_iff.2
      (List.forall₂_same.2 fun part isPart => ?_)))
    obtain ⟨item, -, carries⟩ := exists_left each isPart
    exact carries.made
  have written : List.Forall₂ (Written depth) (parts.map (·.tree)) (parts.map (·.read)) := by
    refine List.forall₂_map_left_iff.2 (List.forall₂_map_right_iff.2
      (List.forall₂_same.2 fun part isPart => ?_))
    obtain ⟨item, -, carries⟩ := exists_left each isPart
    exact carries.written
  have restores : List.Forall₂ (fun h item => h.Restores (P item)) (ofJsonItems (parts.map (·.read)))
      items := by
    rw [ofJsonItems_eq_map, List.map_map]
    exact List.forall₂_map_left_iff.2 (each.flip.imp fun _ _ carries => carries.restores)
  obtain ⟨length, hosts⟩ := List.forall₂_iff_zip.1 hosts
  refine ⟨⟨.list (parts.map (·.host)), .array (parts.map (·.tree)), .array (parts.map (·.read))⟩,
    .sequence (by rw [anatomy, cell]) length fun _ isPair => hosts isPair, ?_, written_array written,
    ?_⟩
  · rw [toJson, made]
    rfl
  · rw [ofJson]
    exact restores_list restores

/-- What a key departs as has its text. -/
theorem Nameable.exists_host {key : Value} (nameable : Nameable key) {text : String}
    (found : s.keyText? key = some text) : ∃ h : HostValue, s.Unfolds key h ∧ h.keyText = text := by
  have unfolds : ∃ h, s.Unfolds key h := by
    cases nameable with
    | nothing => exact ⟨_, .nothing⟩
    | bool b => exact ⟨_, .bool b⟩
    | int i => exact ⟨_, .int i⟩
    | float => exact ⟨_, .float _⟩
    | string => exact ⟨_, .string _⟩
  obtain ⟨h, unfolds⟩ := unfolds
  rw [keyText?_of_depart unfolds.depart, Option.some.injEq] at found
  exact ⟨h, unfolds, found⟩

/-- The forms of an entry in passing: the text that its key goes by, the key as a host value, and
the forms of its value. -/
structure EntryPassage extends Passage where
  name : String
  key : HostValue

namespace EntryPassage

structure Carries (p : EntryPassage) (s : Store) (depth : Nat) (entry : Value × Value)
    (Q : Store → Value → Prop) : Prop where
  text : s.keyText? entry.1 = some p.name
  unfolds : s.Unfolds entry.1 p.key
  keyText : p.key.keyText = p.name
  value : p.toPassage.Carries s depth entry.2 Q

def pair (p : EntryPassage) : HostValue × HostValue := (p.key, p.host)

def member (p : EntryPassage) : String × Json := (p.name, p.tree)

def readMember (p : EntryPassage) : String × Json := (p.name, p.read)

end EntryPassage

section Entries

variable {entries : List (Value × Value)} {parts : List EntryPassage}

theorem exists_passages (keys : ∀ entry ∈ entries, Nameable entry.1)
    (each : ∀ entry ∈ entries, Saves s depth entry.2 (P entry.2)) :
    ∃ parts : List EntryPassage,
      List.Forall₂ (fun entry p => p.Carries s depth entry (P entry.2)) entries parts := by
  refine exists_forall₂ fun entry isEntry => ?_
  obtain ⟨name, found, -⟩ := (keys entry isEntry).exists_keyText (s := s)
  obtain ⟨h, unfolds, keyText⟩ := (keys entry isEntry).exists_host found
  obtain ⟨p, carries⟩ := each entry isEntry
  exact ⟨{ p with name := name, key := h }, found, unfolds, keyText, carries⟩

/-- Entries are written in some order, and read in that order. -/
theorem written_passages
    (each : List.Forall₂ (fun entry p => p.Carries s depth entry (P entry.2)) entries parts)
    (distinct : (parts.map (·.name)).Nodup) : ∃ members reads,
      (ofPairs (parts.map (·.pair))).toJson = .ok (.object members) ∧
      List.Forall₂ (WrittenMember depth) members reads ∧ reads.Perm (parts.map (·.readMember)) := by
  have pairs : List.Forall₂ (fun pair member => pair.1.keyText = member.1 ∧
      pair.2.toJson = .ok member.2) (parts.map (·.pair)) (parts.map (·.member)) := by
    refine List.forall₂_map_left_iff.2 (List.forall₂_map_right_iff.2
      (List.forall₂_same.2 fun p isPart => ?_))
    obtain ⟨entry, -, carries⟩ := exists_left each isPart
    exact ⟨carries.keyText, carries.value.made⟩
  have written : List.Forall₂ (WrittenMember depth) (parts.map (·.member))
      (parts.map (·.readMember)) := by
    refine List.forall₂_map_left_iff.2 (List.forall₂_map_right_iff.2
      (List.forall₂_same.2 fun p isPart => ?_))
    obtain ⟨entry, -, carries⟩ := exists_left each isPart
    exact ⟨rfl, carries.value.written⟩
  obtain ⟨members, perm, made⟩ := toJson_ofPairs pairs (by rwa [List.map_map])
  obtain ⟨reads, written, perm⟩ := List.perm_comp_forall₂ perm written
  exact ⟨members, reads, made, written, perm⟩

theorem saves_dict {fields : List (String × Value)} {frozen : Bool}
    (cell : s.cell ref = .dict entries frozen) (keys : ∀ entry ∈ entries, Nameable entry.1)
    (inStep : List.Forall₂ (fun entry field => s.keyText? entry.1 = some field.1 ∧ entry.2 = field.2)
      entries fields) (distinct : (fields.map Prod.fst).Nodup)
    (free : ∀ field ∈ fields, field.1 ≠ Json.numberName)
    (each : ∀ entry ∈ entries, Saves s depth entry.2 (P entry.2)) :
    Saves s (depth + 1) (.object ref) fun u w => ∃ q others sorted, w = .object q ∧
      u.cell q = .dict others false ∧ sorted.Perm fields ∧
      List.Forall₂ (fun (field : String × Value) (entry : Value × Value) =>
        entry.1 = .string field.1 ∧ P field.2 u entry.2) sorted others := by
  obtain ⟨parts, each⟩ := exists_passages keys each
  have fieldOf : List.Forall₂ (fun member field => member.1 = field.1 ∧
      (ofJson member.2).Restores (P field.2)) (parts.map (·.readMember)) fields := by
    refine List.forall₂_map_left_iff.2 (forall₂_trans each.flip inStep ?_)
    intro p entry field carries same
    exact ⟨Option.some.inj (carries.text.symm.trans same.1), same.2 ▸ carries.value.restores⟩
  have names : (parts.map (·.readMember)).map Prod.fst = fields.map Prod.fst :=
    map_eq_of_forall₂ fieldOf fun _ _ both => both.1
  obtain ⟨members, reads, made, written, perm⟩ := written_passages each (by
    rw [← names, List.map_map] at distinct
    exact distinct)
  have readNames : (reads.map Prod.fst).Perm (fields.map Prod.fst) := names ▸ perm.map Prod.fst
  -- What is read is sorted, and so are the fields with it.
  obtain ⟨ascending, -⟩ := TextMap.ofList_of_distinct (readNames.nodup_iff.2 distinct)
  obtain ⟨sorted, fieldOf, perm'⟩ := List.perm_comp_forall₂ (ascending.trans perm) fieldOf
  refine ⟨⟨.ofPairs (parts.map (·.pair)), .object members, .object (TextMap.ofList reads)⟩,
    .ofPairs (by rw [anatomy, cell]) ?_, made, written_object written ?_, ?_⟩
  · exact List.forall₂_map_right_iff.2 (each.imp fun _ _ carries =>
      ⟨carries.unfolds, carries.value.unfolds⟩)
  · intro first isFirst
    have isName := readNames.mem_iff.1 (List.mem_map_of_mem (List.mem_of_mem_head? isFirst))
    obtain ⟨field, isField, same⟩ := List.mem_map.1 isName
    exact same ▸ free field isField
  · rw [ofJson_object]
    refine (restores_map (List.forall₂_map_left_iff.2 fieldOf)
      ((perm'.map Prod.fst).nodup_iff.2 distinct)).imp ?_
    rintro u w ⟨q, others, same, cell, parts⟩
    exact ⟨q, others, sorted, same, cell, perm', parts⟩

end Entries

/-- Data is written, and read as a copy of it under the texts that its keys have for a host. -/
theorem Spellable.saves (data : Spellable s Nameable levels v) (deep : levels ≤ depth) :
    Saves s depth v fun u w => s.Keeps u → Renamed u s.keyText? v w := by
  induction data generalizing depth with
  | nothing => exact saves_scalar .nothing .null rfl
  | bool b => exact saves_scalar (.bool b) (.bool b) rfl
  | int => exact saves_scalar (.int _) (.int _) (scalar?_ofInt _)
  | string text => exact saves_scalar (.string text) (.string text) rfl
  | list cell _ ih =>
    obtain ⟨depth, rfl⟩ := Nat.exists_eq_add_of_le' deep
    refine (saves_list cell fun item isItem => ih item isItem (Nat.le_add_left _ _)).imp ?_
    rintro u w ⟨q, others, rfl, cell', parts⟩ keeps
    obtain ⟨length, parts⟩ := List.forall₂_iff_zip.1 parts
    exact .list (cell_of_keeps keeps cell rfl) cell' length fun _ isPair => parts isPair keeps
  | dict cell keys _ texts _ ih =>
    obtain ⟨depth, rfl⟩ := Nat.exists_eq_add_of_le' deep
    obtain ⟨fields, inStep, admitted⟩ := exists_named fun entry isEntry =>
      (keys entry isEntry).exists_keyText (s := s)
    refine (saves_dict (P := fun v u w => s.Keeps u → Renamed u s.keyText? v w) cell keys inStep
      (nodup_of_named inStep texts)
      (fun field isField => (admitted field isField).free)
      fun entry isEntry => ih entry isEntry (Nat.le_add_left _ _)).imp ?_
    rintro u w ⟨q, others, sorted, rfl, cell', perm, parts⟩ keeps
    exact renamed_dict (cell_of_keeps keeps cell rfl) cell' inStep perm
      (parts.imp fun _ _ both => ⟨both.1, both.2 keeps⟩)

end Script
end Interchange
