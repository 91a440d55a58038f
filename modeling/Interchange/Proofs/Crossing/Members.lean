import Mathlib.Logic.Relation
import Interchange.Crossing.Text
import Interchange.Proofs.Crossing.ArrivalConduct
import Interchange.Proofs.Crossing.Parts
import Interchange.Proofs.Store.Twin

/-!
# The members of written objects

A dict becomes an object whose members go by the texts of its keys (`Store.DictWritten`). Two keys
can have the same text. That is the one way in which an object of a JSON text comes to repeat a
name, what hooks of the embedding side answer aside (`Store.Writes.repeated`), and where hooks do not
interfere, every entry is a member even then.

What a cell is written as is told part by part (`Store.Writes.cases`), and from that both directions
follow along a path: from a value inside the value to its tree inside the tree
(`Store.Writes.has_of_inside`), and from an object inside the tree to what it stands for.
-/

namespace Interchange

/-! ## Trees -/

namespace Json

/-- An element of an array, or what a member of an object is. -/
inductive Child : Json → Json → Prop
  | element {items : List Json} {item : Json} (isItem : item ∈ items) : Child (.array items) item
  | member {members : List (String × Json)} {member : String × Json} (isMember : member ∈ members) :
      Child (.object members) member.2

/-- A tree has another somewhere inside, or is it. -/
def Has (tree part : Json) : Prop := Relation.ReflTransGen Child tree part

theorem not_has_object {tree : Json} {members : List (String × Json)}
    (other : ∀ members, tree ≠ .object members)
    (numbers : ∀ child, tree.Child child → ∃ n, child = .number n) :
    ¬ tree.Has (.object members) := by
  intro has
  rcases Relation.ReflTransGen.cases_head has with same | ⟨child, isChild, has⟩
  · exact other members same
  · obtain ⟨n, rfl⟩ := numbers child isChild
    rcases Relation.ReflTransGen.cases_head has with same | ⟨_, isChild, _⟩
    · cases same
    · cases isChild

end Json

namespace HostValue

variable {h : HostValue} {tree : Json}

theorem itemsToJson_ok {items : List HostValue} {trees : List Json}
    (made : itemsToJson items = .ok trees) :
    List.Forall₂ (fun h tree => h.toJson = .ok tree) items trees := by
  induction items generalizing trees with
  | nil =>
    cases made
    exact .nil
  | cons item rest ih =>
    rw [itemsToJson] at made
    cases first : item.toJson with
    | error _ => rw [first] at made; cases made
    | ok tree =>
      cases others : itemsToJson rest with
      | error _ => rw [first, others] at made; cases made
      | ok trees =>
        rw [first, others] at made
        cases made
        exact .cons first (ih others)

theorem itemsToJson_of_forall₂ {items : List HostValue} {trees : List Json}
    (each : List.Forall₂ (fun h tree => h.toJson = .ok tree) items trees) :
    itemsToJson items = .ok trees := by
  induction each with
  | nil => rfl
  | cons first _ ih =>
    rw [itemsToJson, first, ih]
    rfl

theorem entriesToJson_ok {entries : List (String × HostValue)} {members : List (String × Json)}
    (made : entriesToJson entries = .ok members) : List.Forall₂ (fun entry member =>
      entry.1 = member.1 ∧ entry.2.toJson = .ok member.2) entries members := by
  induction entries generalizing members with
  | nil =>
    cases made
    exact .nil
  | cons entry rest ih =>
    rw [entriesToJson] at made
    cases first : entry.2.toJson with
    | error _ => rw [first] at made; cases made
    | ok tree =>
      cases others : entriesToJson rest with
      | error _ => rw [first, others] at made; cases made
      | ok members =>
        rw [first, others] at made
        cases made
        exact .cons ⟨rfl, first⟩ (ih others)

theorem entriesToJson_of_forall₂ {entries : List (String × HostValue)}
    {members : List (String × Json)} (each : List.Forall₂ (fun entry member =>
      entry.1 = member.1 ∧ entry.2.toJson = .ok member.2) entries members) :
    entriesToJson entries = .ok members := by
  induction each with
  | nil => rfl
  | @cons entry member _ _ first _ ih =>
    obtain ⟨name, tree⟩ := member
    obtain ⟨_, item⟩ := entry
    obtain ⟨rfl, made⟩ := first
    rw [entriesToJson, made, ih]
    rfl

/-- The text that a key goes by. -/
def keyText (key : HostValue) : String := nameOf key key.toJson

theorem pairsToJson_ok {pairs : List (HostValue × HostValue)} {members : List (String × Json)}
    (made : pairsToJson pairs = .ok members) : List.Forall₂ (fun pair member =>
      pair.1.keyText = member.1 ∧ pair.2.toJson = .ok member.2) pairs members := by
  induction pairs generalizing members with
  | nil =>
    cases made
    exact .nil
  | cons pair rest ih =>
    rw [pairsToJson] at made
    cases first : pair.2.toJson with
    | error _ => rw [first] at made; cases made
    | ok tree =>
      cases others : pairsToJson rest with
      | error _ => rw [first, others] at made; cases made
      | ok members =>
        rw [first, others] at made
        cases made
        exact .cons ⟨rfl, first⟩ (ih others)

theorem pairsToJson_of_forall₂ {pairs : List (HostValue × HostValue)}
    {members : List (String × Json)} (each : List.Forall₂ (fun pair member =>
      pair.1.keyText = member.1 ∧ pair.2.toJson = .ok member.2) pairs members) :
    pairsToJson pairs = .ok members := by
  induction each with
  | nil => rfl
  | @cons pair member _ _ first _ ih =>
    obtain ⟨name, tree⟩ := member
    obtain ⟨key, item⟩ := pair
    obtain ⟨rfl, made⟩ := first
    rw [pairsToJson, made, ih]
    rfl

/-- The members that host values under names are written as: one for each name. -/
structure MapWritten (entries : List (String × HostValue)) (members : List (String × Json)) :
    Prop where
  distinct : (members.map Prod.fst).Nodup
  names : ∀ name, name ∈ members.map Prod.fst ↔ name ∈ entries.map Prod.fst
  listed : ∀ member ∈ members,
    ∃ entry ∈ entries, entry.1 = member.1 ∧ entry.2.toJson = .ok member.2
  kept : (entries.map Prod.fst).Nodup → ∃ ordered : List (String × Json), ordered.Perm members ∧
    List.Forall₂ (fun entry member => entry.1 = member.1 ∧ entry.2.toJson = .ok member.2) entries
      ordered

theorem toJson_ofEntries {entries : List (String × HostValue)}
    (made : (ofEntries entries).toJson = .ok tree) :
    ∃ members, tree = .object members ∧ MapWritten entries members := by
  rw [ofEntries, toJson, Store.bind_ok_iff] at made
  obtain ⟨members, made, rfl⟩ := made
  have each := entriesToJson_ok made
  have names : (TextMap.ofList entries).map Prod.fst = members.map Prod.fst :=
    map_eq_of_forall₂ each fun _ _ both => both.1
  refine ⟨members, rfl, ?_, fun name => ?_, fun member isMember => ?_, fun distinct => ?_⟩
  · rw [← names]
    exact TextMap.distinct_of_ascending (TextMap.ascending_ofList entries)
  · rw [← names]
    exact TextMap.mem_names_ofList
  · obtain ⟨entry, isKept, same⟩ := exists_left each isMember
    exact ⟨entry, mem_ofList isKept, same⟩
  · obtain ⟨ordered, each, perm⟩ :=
      List.perm_comp_forall₂ (TextMap.ofList_perm distinct).symm each
    exact ⟨ordered, perm, each⟩

end HostValue

/-! ## What values are written as -/

namespace Store

/-- A value is written as a tree. -/
def Writes (s : Store) (v : Value) (tree : Json) : Prop :=
  ∃ h, s.depart v = .ok h ∧ h.toJson = .ok tree

/-- The name under which the entry of a key is written. -/
def keyText? (s : Store) (key : Value) : Option String :=
  (s.depart key).toOption.map HostValue.keyText

/-- A hook of the embedding side stands in for the value. -/
def Hooked (s : Store) (v : Value) : Prop := ∃ ref h, v = .object ref ∧ s.Presents ref h

/-- No hook gives a key the text of another key. -/
def OwnTexts (s : Store) (entries : List (Value × Value)) : Prop :=
  entries.Pairwise fun a b => s.keyText? a.1 = s.keyText? b.1 → ¬ s.Hooked a.1 ∧ ¬ s.Hooked b.1

/-- An entry is written as a member. -/
def Enters (s : Store) (entry : Value × Value) (member : String × Json) : Prop :=
  s.keyText? entry.1 = some member.1 ∧ s.Writes entry.2 member.2

/-- The members that entries are written as. -/
structure DictWritten (s : Store) (entries : List (Value × Value))
    (members : List (String × Json)) : Prop where
  /-- Every member is an entry. -/
  listed : ∀ member ∈ members, ∃ entry ∈ entries, s.Enters entry member
  /-- No name is missing. -/
  named : ∀ entry ∈ entries, s.keyText? entry.1 ∈ members.map fun member => some member.1
  /-- Names are distinct, and as many as entries, exactly when the texts of the keys are. -/
  whole : (members.length = entries.length ∧ (members.map Prod.fst).Nodup) ↔
    (entries.map fun entry => s.keyText? entry.1).Nodup
  /-- Every entry is a member, whatever the texts of the keys are. -/
  kept : s.OwnTexts entries →
    ∃ ordered, ordered.Perm members ∧ List.Forall₂ s.Enters entries ordered

variable {s : Store} {v w : Value} {ref : Ref} {tree : Json} {entries : List (Value × Value)}
  {members : List (String × Json)} {fields : List (String × Value)}

theorem keyText?_of_depart {h : HostValue} (departed : s.depart v = .ok h) :
    s.keyText? v = some h.keyText := by
  rw [keyText?, departed]
  rfl

theorem writtenTree_ok {op : String} (written : s.writtenTree op v = .ok tree) :
    s.Writes v tree := by
  cases departed : s.depart v with
  | error _ =>
    rw [writtenTree, departed] at written
    cases written
  | ok h =>
    rw [writtenTree, departed] at written
    change hostTree op h = _ at written
    rw [hostTree] at written
    cases made : h.toJson with
    | error _ =>
      rw [made] at written
      cases written
    | ok tree =>
      rw [made] at written
      cases written
      exact ⟨h, departed, made⟩

theorem toJsonText_ok {text : String} (written : s.toJsonText v = .ok text) :
    ∃ tree, s.Writes v tree ∧ tree.compact = text := by
  obtain ⟨tree, written, same⟩ := bind_ok_iff.1 written
  exact ⟨tree, writtenTree_ok written, same⟩

/-! ## The members of a dict -/

/-- A key that becomes a text is that text, if no hook stands in for it. -/
theorem string_of_depart {name : String} (departed : s.depart v = .ok (.string name))
    (plain : ¬ s.Hooked v) : v = .string name := by
  cases v with
  | string text => exact congrArg _ (HostValue.string.inj (Except.ok.inj departed))
  | object ref =>
    generalize same : HostValue.string name = h at departed
    cases depart_cases departed with
    | sequence | named | handle => cases same
    | keyed =>
      rcases ofPairs_cases _ with ⟨_, _, eq⟩ | ⟨_, eq⟩
      all_goals rw [eq] at same; cases same
    | presented presents => exact absurd ⟨ref, _, rfl, presents⟩ plain
  | int i =>
    change Except.ok (HostValue.ofInt i) = _ at departed
    rw [HostValue.ofInt] at departed
    split at departed <;> cases departed
  | nothing | bool | float | bytes | time => cases departed

theorem exists_dictEntries (anatomy : s.anatomy ref = .keyed entries) :
    ∃ dict, s.dictEntries dict = entries := by
  rw [Store.anatomy] at anatomy
  cases cell : s.cell ref with
  | dict =>
    rw [cell] at anatomy
    cases anatomy
    exact ⟨ref, by rw [dictEntries, cell]⟩
  | mapping name dict =>
    rw [cell] at anatomy
    cases anatomy
    exact ⟨dict, rfl⟩
  | _ => rw [cell] at anatomy; cases anatomy

theorem WellKeyed.pairwise_keys (keyed : s.WellKeyed) (dict : Ref) :
    (s.dictEntries dict).Pairwise fun a b => a.1.identity? = none → a.1 ≠ b.1 := by
  rw [dictEntries]
  cases cell : s.cell dict with
  | dict entries frozen =>
    -- A scalar is steady, so all other keys are apart from it, and nothing is apart from itself.
    have pairs := keyed.apart dict
    rw [cell] at pairs
    refine (List.pairwise_map.1 pairs).imp fun {a b} apart scalar same => ?_
    have unequal := (apart (.inl (.scalar scalar))).1
    rw [same, s.equals_self] at unequal
    cases unequal
  | _ => exact .nil

/-- Where no hook interferes, keys that all become texts become distinct texts. -/
theorem nodup_texts (keyed : s.WellKeyed) (anatomy : s.anatomy ref = .keyed entries)
    (own : s.OwnTexts entries)
    (texts : ∀ entry ∈ entries, ∃ name, s.depart entry.1 = .ok (.string name)) :
    (entries.map fun entry => s.keyText? entry.1).Nodup := by
  obtain ⟨dict, rfl⟩ := exists_dictEntries anatomy
  refine List.pairwise_map.2 ((own.and (keyed.pairwise_keys dict)).imp_of_mem ?_)
  rintro a b isEntry isEntry' ⟨own, differ⟩ same
  obtain ⟨name, departed⟩ := texts a isEntry
  obtain ⟨other, departed'⟩ := texts b isEntry'
  -- No hook made the text that they share, so either key is that text.
  have plain := own same
  rw [keyText?_of_depart departed, keyText?_of_depart departed'] at same
  have key := string_of_depart departed plain.1
  have key' := string_of_depart departed' plain.2
  rw [key, key'] at differ
  exact differ rfl (congrArg Value.string (Option.some.inj same))

/-- Entries in step with members, whatever their names. -/
theorem dictWritten_of_enters (each : List.Forall₂ s.Enters entries members) :
    s.DictWritten entries members := by
  have texts : entries.map (fun entry => s.keyText? entry.1) =
      members.map fun member => some member.1 :=
    map_eq_of_forall₂ each fun _ _ enters => enters.1
  refine ⟨fun member isMember => exists_left each isMember, fun entry isEntry => ?_, ?_,
    fun _ => ⟨members, .refl _, each⟩⟩
  · rw [← texts]
    exact List.mem_map_of_mem isEntry
  · rw [texts, nodup_some_names]
    exact and_iff_right each.length_eq.symm

/-- Entries whose keys all become texts are written once for each text. -/
theorem dictWritten_of_texts (keyed : s.WellKeyed) (anatomy : s.anatomy ref = .keyed entries)
    {named : List (String × HostValue)}
    (each : List.Forall₂ (fun entry e => s.depart entry.1 = .ok (.string e.1) ∧
      s.depart entry.2 = .ok e.2) entries named)
    (made : HostValue.MapWritten named members) : s.DictWritten entries members := by
  have texts : entries.map (fun entry => s.keyText? entry.1) = named.map fun e => some e.1 :=
    map_eq_of_forall₂ each fun _ _ both => keyText?_of_depart both.1
  have enters {entry : Value × Value} {e : String × HostValue} {member : String × Json}
      (both : s.depart entry.1 = .ok (.string e.1) ∧ s.depart entry.2 = .ok e.2)
      (same : e.1 = member.1 ∧ e.2.toJson = .ok member.2) : s.Enters entry member :=
    ⟨(keyText?_of_depart both.1).trans (congrArg some same.1), e.2, both.2, same.2⟩
  -- An entry that another of its text displaces need not have a tree, so members come first.
  refine ⟨fun member isMember => ?_, fun entry isEntry => ?_, ?_, fun own => ?_⟩
  · obtain ⟨e, isNamed, same⟩ := made.listed member isMember
    obtain ⟨entry, isEntry, both⟩ := exists_left each isNamed
    exact ⟨entry, isEntry, enters both same⟩
  · obtain ⟨e, isNamed, both⟩ := exists_right each isEntry
    have isName := (made.names e.1).2 (List.mem_map_of_mem isNamed)
    obtain ⟨member, isMember, same⟩ := List.mem_map.1 isName
    exact List.mem_map.2 ⟨member, isMember,
      (congrArg some same).trans (keyText?_of_depart both.1).symm⟩
  · have count := length_eq_iff_nodup made.distinct made.names
    rw [List.length_map, List.length_map, ← each.length_eq] at count
    rw [texts, nodup_some_names, ← count]
    exact and_iff_left made.distinct
  · have distinct := nodup_texts keyed anatomy own fun entry isEntry => by
      obtain ⟨e, -, both⟩ := exists_right each isEntry
      exact ⟨e.1, both.1⟩
    rw [texts, nodup_some_names] at distinct
    obtain ⟨ordered, perm, made⟩ := made.kept distinct
    exact ⟨ordered, perm, forall₂_trans each made fun _ _ _ => enters⟩

theorem dictWritten_of_pairs (keyed : s.WellKeyed) (anatomy : s.anatomy ref = .keyed entries)
    {pairs : List (HostValue × HostValue)}
    (each : List.Forall₂ (fun entry pair => s.depart entry.1 = .ok pair.1 ∧
      s.depart entry.2 = .ok pair.2) entries pairs)
    (made : (HostValue.ofPairs pairs).toJson = .ok tree) :
    ∃ members, tree = .object members ∧ s.DictWritten entries members := by
  rcases ofPairs_cases pairs with ⟨named, rfl, byName⟩ | ⟨-, byKey⟩
  · rw [byName] at made
    obtain ⟨members, rfl, written⟩ := HostValue.toJson_ofEntries made
    exact ⟨members, rfl,
      dictWritten_of_texts keyed anatomy (List.forall₂_map_right_iff.1 each) written⟩
  · rw [byKey, HostValue.toJson, bind_ok_iff] at made
    obtain ⟨members, made, rfl⟩ := made
    refine ⟨members, rfl, dictWritten_of_enters ?_⟩
    refine forall₂_trans each (HostValue.pairsToJson_ok made) fun entry pair member both same => ?_
    exact ⟨(keyText?_of_depart both.1).trans (congrArg some same.1), pair.2, both.2, same.2⟩

/-! ## Cell by cell -/

/-- What a cell is written as, part by part. -/
inductive WritesCell (s : Store) (ref : Ref) : Json → Prop
  | sequence {items : List Value} {trees : List Json} (anatomy : s.anatomy ref = .sequence items)
      (each : List.Forall₂ s.Writes items trees) : WritesCell s ref (.array trees)
  | keyed {entries : List (Value × Value)} {members : List (String × Json)}
      (anatomy : s.anatomy ref = .keyed entries) (written : s.DictWritten entries members) :
      WritesCell s ref (.object members)
  | named {fields : List (String × Value)} {members : List (String × Json)}
      (parts : s.NamedParts ref fields) (distinct : (members.map Prod.fst).Nodup)
      (listed : ∀ member ∈ members, ∃ field ∈ fields, s.Writes field.2 member.2)
      (all : ∀ field ∈ fields, ∃ member ∈ members, s.Writes field.2 member.2) :
      WritesCell s ref (.object members)
  | hooked {h : HostValue} {tree : Json} (presents : s.Presents ref h)
      (made : h.toJson = .ok tree) : WritesCell s ref tree

/-- Parts of one name are the same. -/
theorem NamedParts.eq_of_name (named : s.Named) (parts : s.NamedParts ref fields)
    {field other : String × Value} (isField : field ∈ fields) (isOther : other ∈ fields)
    (same : field.1 = other.1) : field.2 = other.2 := by
  have distinct (names : (s.cell ref).names = fields.map Prod.fst) : field.2 = other.2 :=
    congrArg Prod.snd (List.inj_on_of_nodup_map (names ▸ named ref) isField isOther same)
  cases parts with
  | record cell => exact distinct (by rw [cell]; rfl)
  | module cell => exact distinct (by rw [cell]; rfl)
  | @attributes _ attributes _ _ _ _ listed =>
    have looked {field : String × Value} (isField : field ∈ fields) :
        attributes.values.lookup field.1 = some field.2 := by
      simp only [attributeEntries] at listed
      split at listed
      · cases listed
      · cases listed
        obtain ⟨name, -, found⟩ := List.mem_filterMap.1 isField
        obtain ⟨v, looked, rfl⟩ := Option.map_eq_some_iff.1 found
        exact looked
    exact Option.some.inj ((looked isField).symm.trans (same ▸ looked isOther))

/-- Parts that have names are written once for each name. -/
theorem writesCell_of_named (named : s.Named) (parts : s.NamedParts ref fields)
    {entries : List (String × HostValue)}
    (each : List.Forall₂ (fun field entry => field.1 = entry.1 ∧ s.depart field.2 = .ok entry.2)
      fields entries) (made : (HostValue.ofEntries entries).toJson = .ok tree) :
    s.WritesCell ref tree := by
  obtain ⟨members, rfl, written⟩ := HostValue.toJson_ofEntries made
  have listed (member : String × Json) (isMember : member ∈ members) :
      ∃ field ∈ fields, field.1 = member.1 ∧ s.Writes field.2 member.2 := by
    obtain ⟨entry, isEntry, same⟩ := written.listed member isMember
    obtain ⟨field, isField, both⟩ := exists_left each isEntry
    exact ⟨field, isField, both.1.trans same.1, entry.2, both.2, same.2⟩
  refine .named parts written.distinct (fun member isMember => ?_) fun field isField => ?_
  · obtain ⟨field, isField, -, writes⟩ := listed member isMember
    exact ⟨field, isField, writes⟩
  · -- The member of the name may come from another part of that name, which is the same.
    obtain ⟨entry, isEntry, both⟩ := exists_right each isField
    obtain ⟨member, isMember, same⟩ :=
      List.mem_map.1 ((written.names entry.1).2 (List.mem_map_of_mem isEntry))
    obtain ⟨other, isOther, sameName, writes⟩ := listed member isMember
    refine ⟨member, isMember, ?_⟩
    rwa [parts.eq_of_name named isField isOther (both.1.trans (same.symm.trans sameName.symm))]

theorem forall₂_writes {items : List Value} {hosts : List HostValue} {trees : List Json}
    (each : List.Forall₂ (fun v h => s.depart v = .ok h) items hosts)
    (made : HostValue.itemsToJson hosts = .ok trees) : List.Forall₂ s.Writes items trees :=
  forall₂_trans each (HostValue.itemsToJson_ok made) fun _ h _ departed same => ⟨h, departed, same⟩

theorem Writes.cases (keyed : s.WellKeyed) (named : s.Named)
    (writes : s.Writes (.object ref) tree) : s.WritesCell ref tree := by
  obtain ⟨h, departed, made⟩ := writes
  cases depart_cases departed with
  | sequence anatomy each =>
    rw [HostValue.toJson, bind_ok_iff] at made
    obtain ⟨trees, made, rfl⟩ := made
    exact .sequence anatomy (forall₂_writes each made)
  | keyed anatomy each =>
    obtain ⟨members, rfl, written⟩ := dictWritten_of_pairs keyed anatomy each made
    exact .keyed anatomy written
  | named parts each => exact writesCell_of_named named parts each made
  | presented presents => exact .hooked presents made
  | handle => cases made

/-! ## Inside -/

/-- The parts of a cell that a text has inside: elements, the values of entries, and named parts. -/
inductive Carries (s : Store) (ref : Ref) : Value → Prop
  | item {items : List Value} {v : Value} (anatomy : s.anatomy ref = .sequence items)
      (isItem : v ∈ items) : Carries s ref v
  | value {entries : List (Value × Value)} {entry : Value × Value}
      (anatomy : s.anatomy ref = .keyed entries) (isEntry : entry ∈ entries) :
      Carries s ref entry.2
  | part {fields : List (String × Value)} {field : String × Value}
      (parts : s.NamedParts ref fields) (isField : field ∈ fields) : Carries s ref field.2

/-- A part of a cell whose entries are all written, if it has entries: no hook makes the texts of
two keys the same. -/
def CarriesAll (s : Store) (ref : Ref) (v : Value) : Prop :=
  (∀ entries, s.anatomy ref = .keyed entries → s.OwnTexts entries) ∧ s.Carries ref v

/-- A value has another inside, part by part. -/
def Inside (carries : Ref → Value → Prop) (v w : Value) : Prop :=
  Relation.ReflTransGen (fun v w => ∃ ref, v = .object ref ∧ carries ref w) v w

theorem anatomy_of_parts (parts : s.NamedParts ref fields) :
    (∀ items, s.anatomy ref ≠ .sequence items) ∧ ∀ entries, s.anatomy ref ≠ .keyed entries := by
  cases parts with
  | record cell | module cell | attributes cell => simp [Store.anatomy, cell]

theorem anatomy_of_presents {h : HostValue} (presents : s.Presents ref h) :
    (∀ items, s.anatomy ref ≠ .sequence items) ∧ ∀ entries, s.anatomy ref ≠ .keyed entries := by
  cases presents with
  | own cell | tag cell => simp [Store.anatomy, cell]

theorem NamedParts.unique {others : List (String × Value)} (parts : s.NamedParts ref fields)
    (parts' : s.NamedParts ref others) : fields = others := by
  cases parts with
  | record cell | module cell =>
    cases parts' with
    | record cell' | module cell' | attributes cell' =>
      rw [cell] at cell'
      cases cell'
      try rfl
  | attributes cell _ has listed =>
    cases parts' with
    | record cell' | module cell' =>
      rw [cell] at cell'
      cases cell'
    | attributes cell' _ has' listed' =>
      rw [cell] at cell'
      cases cell'
      rw [has] at has'
      cases has'
      exact Except.ok.inj (listed.symm.trans listed')

theorem NamedParts.not_presents {h : HostValue} (parts : s.NamedParts ref fields) :
    ¬ s.Presents ref h := by
  intro presents
  cases parts with
  | record cell plain =>
    cases presents with
    | own cell' => rw [cell] at cell'; cases cell'
    | tag cell' departure =>
      rw [cell] at cell'
      cases cell'
      rw [plain] at departure
      cases departure
  | module cell =>
    cases presents with
    | own cell' | tag cell' => rw [cell] at cell'; cases cell'
  | attributes cell plain =>
    cases presents with
    | own cell' departure =>
      rw [cell] at cell'
      cases cell'
      rw [plain] at departure
      cases departure
    | tag cell' => rw [cell] at cell'; cases cell'

/-- What has entries is written as an object of them. -/
theorem WritesCell.dictWritten (written : s.WritesCell ref tree)
    (anatomy : s.anatomy ref = .keyed entries) :
    ∃ members, tree = .object members ∧ s.DictWritten entries members := by
  cases written with
  | sequence anatomy' => rw [anatomy] at anatomy'; cases anatomy'
  | keyed anatomy' written =>
    rw [anatomy] at anatomy'
    cases anatomy'
    exact ⟨_, rfl, written⟩
  | named parts => exact absurd anatomy ((anatomy_of_parts parts).2 _)
  | hooked presents => exact absurd anatomy ((anatomy_of_presents presents).2 _)

/-- A part of a cell is written inside what the cell is written as. -/
theorem WritesCell.exists_child (written : s.WritesCell ref tree) (carries : s.CarriesAll ref v) :
    ∃ child, tree.Child child ∧ s.Writes v child := by
  obtain ⟨own, carries⟩ := carries
  cases carries with
  | item anatomy isItem =>
    cases written with
    | sequence anatomy' each =>
      rw [anatomy] at anatomy'
      cases anatomy'
      obtain ⟨child, isChild, writes⟩ := exists_right each isItem
      exact ⟨child, .element isChild, writes⟩
    | keyed anatomy' => rw [anatomy] at anatomy'; cases anatomy'
    | named parts => exact absurd anatomy ((anatomy_of_parts parts).1 _)
    | hooked presents => exact absurd anatomy ((anatomy_of_presents presents).1 _)
  | value anatomy isEntry =>
    obtain ⟨members, rfl, entered⟩ := written.dictWritten anatomy
    obtain ⟨ordered, perm, each⟩ := entered.kept (own _ anatomy)
    obtain ⟨member, isMember, enters⟩ := exists_right each isEntry
    exact ⟨member.2, .member (perm.mem_iff.1 isMember), enters.2⟩
  | part parts isField =>
    cases written with
    | sequence anatomy => exact absurd anatomy ((anatomy_of_parts parts).1 _)
    | keyed anatomy => exact absurd anatomy ((anatomy_of_parts parts).2 _)
    | named parts' _ _ all =>
      obtain rfl := parts.unique parts'
      obtain ⟨member, isMember, writes⟩ := all _ isField
      exact ⟨member.2, .member isMember, writes⟩
    | hooked presents => exact absurd presents parts.not_presents

/-- What a tree has inside is what a part of the cell is written as, unless a hook made it. -/
theorem WritesCell.of_child {child : Json} (written : s.WritesCell ref tree)
    (isChild : tree.Child child) :
    (∃ v, s.Carries ref v ∧ s.Writes v child) ∨ ∃ h, s.Presents ref h ∧ h.toJson = .ok tree := by
  cases written with
  | sequence anatomy each =>
    cases isChild with
    | element isItem =>
      obtain ⟨v, isPart, writes⟩ := exists_left each isItem
      exact .inl ⟨v, .item anatomy isPart, writes⟩
  | keyed anatomy written =>
    cases isChild with
    | member isMember =>
      obtain ⟨entry, isEntry, enters⟩ := written.listed _ isMember
      exact .inl ⟨entry.2, .value anatomy isEntry, enters.2⟩
  | named parts _ listed =>
    cases isChild with
    | member isMember =>
      obtain ⟨field, isField, writes⟩ := listed _ isMember
      exact .inl ⟨field.2, .part parts isField, writes⟩
  | hooked presents made => exact .inr ⟨_, presents, made⟩

/-- A scalar has no object in its tree. -/
theorem not_has_of_scalar (scalar : v.identity? = none) (writes : s.Writes v tree) :
    ¬ tree.Has (.object members) := by
  obtain ⟨h, departed, made⟩ := writes
  cases v with
  | object => cases scalar
  | bytes b =>
    cases departed
    cases made
    refine Json.not_has_object nofun fun child isChild => ?_
    cases isChild with
    | element isItem =>
      obtain ⟨byte, -, rfl⟩ := List.mem_map.1 isItem
      exact ⟨_, rfl⟩
  | int i =>
    cases departed
    rw [HostValue.ofInt] at made
    split at made
    all_goals
      cases made
      exact Json.not_has_object nofun nofun
  | float x =>
    cases departed
    cases made
    cases x <;> exact Json.not_has_object nofun nofun
  | nothing | bool | string | time =>
    cases departed
    cases made
    exact Json.not_has_object nofun nofun

/-- The objects in the tree of a value. -/
structure WritesDicts (s : Store) (v : Value) (tree : Json) : Prop where
  /-- Every dict inside is written somewhere, if hooks lose no entry on the way to it. -/
  dicts : ∀ ref entries, Inside s.CarriesAll v (.object ref) → s.anatomy ref = .keyed entries →
    ∃ members, tree.Has (.object members) ∧ s.Writes (.object ref) (.object members) ∧
      s.DictWritten entries members
  /-- An object that repeats a name is a dict with two keys of one text, or a hook made it. -/
  repeated : ∀ members, tree.Has (.object members) → ¬ (members.map Prod.fst).Nodup →
    ∃ ref, Inside s.Carries v (.object ref) ∧
      ((∃ entries, s.anatomy ref = .keyed entries ∧ s.DictWritten entries members ∧
        ¬ (entries.map fun entry => s.keyText? entry.1).Nodup) ∨
      ∃ h part, s.Presents ref h ∧ h.toJson = .ok part ∧ part.Has (.object members))

section Walk

variable (keyed : s.WellKeyed) (named : s.Named)
include keyed named

/-- What a value has inside is written inside the tree. -/
theorem Writes.has_of_inside (writes : s.Writes v tree) (inside : Inside s.CarriesAll v w) :
    ∃ part, tree.Has part ∧ s.Writes w part := by
  induction inside using Relation.ReflTransGen.head_induction_on generalizing tree with
  | refl => exact ⟨tree, .refl, writes⟩
  | head step _ ih =>
    -- No entry is lost, so a step to a part is a step down the tree.
    obtain ⟨ref, rfl, carries⟩ := step
    obtain ⟨child, isChild, writes⟩ := (writes.cases keyed named).exists_child carries
    obtain ⟨part, has, writes⟩ := ih writes
    exact ⟨part, .head isChild has, writes⟩

theorem Writes.repeated (writes : s.Writes v tree) (has : tree.Has (.object members))
    (twice : ¬ (members.map Prod.fst).Nodup) :
    ∃ ref, Inside s.Carries v (.object ref) ∧
      ((∃ entries, s.anatomy ref = .keyed entries ∧ s.DictWritten entries members ∧
        ¬ (entries.map fun entry => s.keyText? entry.1).Nodup) ∨
      ∃ h part, s.Presents ref h ∧ h.toJson = .ok part ∧ part.Has (.object members)) := by
  have cell {v : Value} {tree : Json} (writes : s.Writes v tree)
      (has : tree.Has (.object members)) : ∃ ref, v = .object ref := by
    cases v with
    | object ref => exact ⟨ref, rfl⟩
    | _ => exact absurd has (not_has_of_scalar rfl writes)
  -- The induction is on the way down to the object. A step down leads to what a part is written as,
  -- and the object is what a cell is written as, unless a hook made the tree there.
  generalize isObject : Json.object members = last at has
  induction has using Relation.ReflTransGen.head_induction_on generalizing v with
  | refl =>
    subst isObject
    obtain ⟨ref, rfl⟩ := cell writes .refl
    refine ⟨ref, .refl, ?_⟩
    cases writes.cases keyed named with
    | keyed anatomy written =>
      exact .inl ⟨_, anatomy, written, fun distinct => twice (written.whole.2 distinct).2⟩
    | named _ distinct => exact absurd distinct twice
    | hooked presents made => exact .inr ⟨_, _, presents, made, .refl⟩
  | head isChild has ih =>
    subst isObject
    obtain ⟨ref, rfl⟩ := cell writes (.head isChild has)
    rcases (writes.cases keyed named).of_child isChild with
      ⟨w, carries, writes⟩ | ⟨h, presents, made⟩
    · obtain ⟨q, inside, found⟩ := ih writes
      exact ⟨q, .head ⟨ref, rfl, carries⟩ inside, found⟩
    · exact ⟨ref, .refl, .inr ⟨h, _, presents, made, .head isChild has⟩⟩

/-- What a value is written as has its dicts as objects, and repeats a name only where keys have the
same text. -/
theorem Writes.writesDicts (writes : s.Writes v tree) : s.WritesDicts v tree := by
  refine ⟨fun ref entries inside anatomy => ?_, fun members has twice =>
    writes.repeated keyed named has twice⟩
  obtain ⟨part, has, writes⟩ := writes.has_of_inside keyed named inside
  obtain ⟨members, rfl, written⟩ := (writes.cases keyed named).dictWritten anatomy
  exact ⟨members, has, writes, written⟩

end Walk

end Store

end Interchange
