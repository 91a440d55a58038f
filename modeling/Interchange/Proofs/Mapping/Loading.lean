import Interchange.Proofs.Json.Objects
import Interchange.Proofs.Json.Spelling
import Interchange.Proofs.Mapping.Overlay
import Interchange.Proofs.Text.Utf8

/-!
# Members of a JSON text

A mapping takes over the members of a JSON object as a whole or not at all. Whatever can be refused
is refused before the first member is written: a text that is not read, one of something else than an
object, and a frozen dict. What the text is read as are lists and dicts of its own, so each of its
values may be stored (`HostValue.restored_ofJson`, `Mirrors.data`), and the members are laid over the
entries in the order of the bytes of their names (`Reachable.loadJson_outcome`).
-/

namespace Interchange

open Store

/-! ## What texts are read as -/

namespace HostValue

mutual

/-- Every JSON tree arrives, as something that its host form mirrors. -/
theorem restored_ofJson : (tree : Json) → (ofJson tree).Restored
  | .null => restored_scalar rfl fun _ => .null
  | .bool b => restored_scalar rfl fun _ => .bool b
  | .number n => by
    rw [ofJson]
    split
    · exact restored_scalar (scalar?_ofInt _) fun _ => .int rfl
    · exact restored_scalar rfl fun _ => .float _
  | .string text => restored_scalar rfl fun _ => .string text
  | .array items => restored_list (restored_ofJsonItems items)
  | .object members => restored_map (TextMap.ascending_ofList _) fun entry isEntry =>
    restored_ofJsonMembers members entry (mem_ofList isEntry)

theorem restored_ofJsonItems :
    (items : List Json) → ∀ item ∈ ofJsonItems items, item.Restored
  | [], _, isItem => by cases isItem
  | first :: rest, item, isItem => by
    rcases List.mem_cons.1 isItem with rfl | isRest
    · exact restored_ofJson first
    · exact restored_ofJsonItems rest item isRest

theorem restored_ofJsonMembers :
    (members : List (String × Json)) → ∀ entry ∈ ofJsonMembers members, entry.2.Restored
  | [], _, isEntry => by cases isEntry
  | (_, first) :: rest, entry, isEntry => by
    rcases List.mem_cons.1 isEntry with rfl | isRest
    · exact restored_ofJson first
    · exact restored_ofJsonMembers rest entry isRest

end

/-- Only an object is read as a map. -/
theorem ofJson_ne_map {tree : Json} (other : ∀ members, tree ≠ .object members)
    (named : List (String × HostValue)) : ofJson tree ≠ .map named := by
  cases tree with
  | object members => exact absurd rfl (other members)
  | number n =>
    rw [ofJson]
    split
    · rw [ofInt]
      split <;> nofun
    · nofun
  | _ => nofun

end HostValue

namespace Mapping

variable {s t : Store} {ref dict : Ref} {name : String} {flag frozen : Bool} {text : String}
  {old : List (Value × Value)} {fields : List (String × Value)} {members : List (String × Json)}

/-- The fields of an object that was read: one for each name, in the order of the bytes of the names,
with what the last member of the name is. -/
structure Decodes (m : Store) (members : List (String × Json)) (fields : List (String × Value)) :
    Prop where
  ascending : (fields.map fun field => Text.utf8 field.1).Pairwise (· < ·)
  last : ∀ name, Option.Rel (fun tree v => m.Mirrors (.ofJson tree) v)
    (members.reverse.lookup name) (fields.lookup name)

/-- How a JSON text is loaded into a mapping over a dict. -/
structure Loads (s : Store) (ref dict : Ref) (name : String) (flag frozen : Bool)
    (old : List (Value × Value)) (text : String) : Prop where
  /-- A frozen mapping refuses every text. -/
  sealed : flag = true → (loadJson ref text).runOn s = (.error (.frozen "load_json" name), s)
  /-- A text that cannot be read is refused with the fault of its reading. -/
  unread : flag = false → ∀ fault, Json.parse text = .error fault →
    (Op.fromJsonText text).runOn s = (.error (.json "from_json" fault), s) ∧
    (loadJson ref text).runOn s = (.error (.json "from_json" fault), s)
  /-- A text of something else than an object is refused when it has been read. -/
  misshapen : flag = false → ∀ tree, Json.parse text = .ok tree → (∀ members, tree ≠ .object members) →
    ∃ v m, (Op.fromJsonText text).runOn s = (.ok v, m) ∧ s.Keeps m ∧
      (loadJson ref text).runOn s = (.error (.shape "from_json" ⟨m.typeName v, "dict"⟩), m)
  /-- The members of an object are laid over the entries, unless the dict alone is frozen. -/
  object : flag = false → ∀ sorted, Json.parse text = .ok (.object sorted) →
    ∃ members decoded fields m, Json.HasMembers text members ∧
      (Op.fromJsonText text).runOn s = (.ok (.object decoded), m) ∧ s.Keeps m ∧
      m.cell decoded = .dict (textEntries fields) false ∧ Decodes m members fields ∧
      (loadJson ref text).runOn s =
        if frozen = true ∧ members ≠ [] then (.error (.frozen "insert" "dict"), m)
        else (.ok (), m.write dict (.dict (overlay old fields) frozen))

theorem runOn_loadJson (cell : s.cell ref = .mapping name dict flag) : (loadJson ref text).runOn s =
    if flag then (.error (.frozen "load_json" name), s)
    else (do
      let decoded ← Op.dictFromJsonText text
      merge dict "load_json" (← Dict.entries decoded) : Op Unit).runOn s := by
  rw [loadJson, Op.runOn_bind, runOn_read cell]
  cases flag <;> rfl

end Mapping

namespace Store

variable {s t m : Store} {ref dict r : Ref} {name : String} {flag frozen : Bool} {text : String}
  {fields : List (String × Value)} {members : List (String × Json)}

/-! ## Fields of an object -/

theorem rel_lookup {α β : Type} {R : α → β → Prop} {as : List (String × α)} {bs : List (String × β)}
    (each : List.Forall₂ (fun a b => a.1 = b.1 ∧ R a.2 b.2) as bs) (name : String) :
    Option.Rel R (as.lookup name) (bs.lookup name) := by
  induction each with
  | nil => exact .none
  | cons first _ ih =>
    rw [TextMap.lookup_cons, TextMap.lookup_cons, first.1]
    split
    · exact .some first.2
    · exact ih

theorem lookup_map_snd {α β : Type} (f : α → β) (entries : List (String × α)) (name : String) :
    (entries.map fun entry => (entry.1, f entry.2)).lookup name = (entries.lookup name).map f := by
  induction entries with
  | nil => rfl
  | cons entry rest ih =>
    rw [List.map_cons, TextMap.lookup_cons, TextMap.lookup_cons, ih]
    split <;> rfl

/-- The members of a text are read as an object, of the last of each name. -/
theorem ofJson_of_members (members : List (String × Json)) :
    HostValue.ofJson (.object (TextMap.ofList members)) =
      .map (HostValue.ofJsonMembers (TextMap.ofList members)) :=
  HostValue.ofJson_object_of_ascending (TextMap.ascending_ofList members)

/-- Fields in step with the sorted members of an object are what the object is read as. -/
theorem decodes_of_forall₂ (each : List.Forall₂ (fun entry field => entry.1 = field.1 ∧
      m.Mirrors entry.2 field.2) (HostValue.ofJsonMembers (TextMap.ofList members)) fields) :
    Mapping.Decodes m members fields where
  ascending := by
    have ascending := TextMap.ascending_ofList members
    rw [← HostValue.map_fst_ofJsonMembers, names_eq_iff.2 (each.imp fun _ _ both => both.1),
      List.pairwise_map] at ascending
    exact List.pairwise_map.2 (ascending.imp Text.utf8_lt_utf8)
  last := fun name => by
    have related := rel_lookup each name
    rw [HostValue.ofJsonMembers_eq_map, lookup_map_snd, TextMap.lookup_ofList] at related
    generalize fields.lookup name = value at related ⊢
    cases found : members.reverse.lookup name with
    | none =>
      rw [found] at related
      cases related with
      | none => exact .none
    | some tree =>
      rw [found] at related
      cases related with
      | some mirrors => exact .some mirrors

theorem eq_nil_iff_lookup {α : Type} {entries : List (String × α)} :
    entries = [] ↔ ∀ name, entries.lookup name = none := by
  cases entries with
  | nil => exact iff_of_true rfl fun _ => rfl
  | cons entry rest =>
    refine iff_of_false (List.cons_ne_nil _ _) fun none => ?_
    have here := none entry.1
    rw [TextMap.lookup_cons, if_pos rfl] at here
    cases here

/-- There are fields when there are members. -/
theorem fields_eq_nil_iff (decodes : Mapping.Decodes m members fields) :
    fields = [] ↔ members = [] := by
  have reversed : members = [] ↔ members.reverse = [] := List.reverse_eq_nil_iff.symm
  rw [reversed, eq_nil_iff_lookup, eq_nil_iff_lookup]
  refine forall_congr' fun name => ?_
  have related := decodes.last name
  generalize fields.lookup name = value at related ⊢
  generalize members.reverse.lookup name = tree at related ⊢
  cases related with
  | none => exact iff_of_true rfl rfl
  | some => exact iff_of_false (Option.some_ne_none _) (Option.some_ne_none _)

/-- What is read as something else than a map is no dict. -/
theorem unpack_of_mirrors {h : HostValue} {v : Value} (mirrors : m.Mirrors h v)
    (other : ∀ named, h ≠ .map named) : m.unpack .dict v = .error ⟨m.typeName v, "dict"⟩ := by
  cases mirrors with
  | null | bool | int | float | string => rfl
  | list cell => exact if_neg (by rw [cell]; exact Bool.false_ne_true)
  | map => exact absurd rfl (other _)

/-- An object is read as a dict of its fields, which are data whatever an older cell holds. -/
theorem Reachable.decodes (reachable : s.Reachable) (inside : dict.index < s.size)
    (parsed : Json.parse text = .ok (.object (TextMap.ofList members))) :
    ∃ r fields m, (Op.fromJsonText text).runOn s = (.ok (.object r), m) ∧ s.Keeps m ∧ m.Reachable ∧
      m.cell r = .dict (textEntries fields) false ∧ Mapping.Decodes m members fields ∧
      ∀ c, ∀ field ∈ fields, (m.write dict c).Data field.2 := by
  have ascending := TextMap.ascending_ofList members
  rw [← HostValue.map_fst_ofJsonMembers] at ascending
  have restores := HostValue.restores_map (P := fun item u v => u.Mirrors item v)
    (List.forall₂_same.2 fun entry isEntry => ⟨rfl,
      HostValue.restored_ofJsonMembers _ entry isEntry⟩)
    (TextMap.distinct_of_ascending ascending)
  obtain ⟨v, m, arrived, built⟩ := restores s
  obtain ⟨r, others, rfl, cell, parts⟩ := built.added m fun _ _ _ => rfl
  obtain ⟨fields, rfl, each⟩ := exists_fields (R := fun item v => m.Mirrors item v) parts
  have read : (Op.fromJsonText text).runOn s = (.ok (.object r), m) := by
    rw [Op.runOn_fromJsonText parsed, ofJson_of_members, arrived]
  refine ⟨r, fields, m, read, fun ref inside => built.kept ref inside not_false, ?_, cell,
    decodes_of_forall₂ each, fun c field isField => ?_⟩
  · have ran : ((Action.decode text).run.runOn s).2 = m := by
      rw [Action.run, Op.runOn_bind_of_ok read]
      rfl
    exact reachable.later (ran ▸ .act (.decode text) ⟨List.forall_mem_nil _, by simp⟩)
  · have within (c : Cell) := built.added (m.write dict c) fun ref low _ =>
      (cell_write_other m c (ne_of_apply_ne Ref.index (by omega))).symm
    have other : dict ≠ r := by
      rintro rfl
      obtain ⟨_, _, same, cell', -⟩ := within (.tuple [])
      cases same
      rw [cell_write_self m _ (Nat.lt_of_lt_of_le inside built.size_le)] at cell'
      cases cell'
    obtain ⟨_, others, same, cell', each⟩ := within c
    cases same
    rw [cell_write_other m c other, cell] at cell'
    cases cell'
    obtain ⟨_, -, same, mirrors⟩ := exists_left each (field_mem_textEntries.2 isField)
    exact mirrors.data

/-! ## Loading -/

theorem runOn_dictFromJsonText {v : Value}
    (read : (Op.fromJsonText text).runOn s = (.ok v, m)) :
    (Op.dictFromJsonText text).runOn s = match m.unpack .dict v with
      | .ok r => (.ok r, m)
      | .error mismatch => (.error (.shape "from_json" mismatch), m) := by
  rw [Op.dictFromJsonText, Op.runOn_bind_of_ok read, Op.runOn_bind, Op.runOn_get]
  dsimp only
  cases m.unpack .dict v <;> rfl

theorem loads_unread (cell : s.cell ref = .mapping name dict false) {fault : Json.Fault}
    (failed : Json.parse text = .error fault) :
    (Op.fromJsonText text).runOn s = (.error (.json "from_json" fault), s) ∧
    (Mapping.loadJson ref text).runOn s = (.error (.json "from_json" fault), s) := by
  have read : (Op.fromJsonText text).runOn s = (.error (.json "from_json" fault), s) := by
    rw [Op.fromJsonText, failed]
    rfl
  refine ⟨read, ?_⟩
  rw [Mapping.runOn_loadJson cell, if_neg Bool.false_ne_true, Op.runOn_bind, Op.dictFromJsonText,
    Op.runOn_bind, read]

theorem loads_misshapen (cell : s.cell ref = .mapping name dict false) {tree : Json}
    (parsed : Json.parse text = .ok tree) (other : ∀ members, tree ≠ .object members) :
    ∃ v m, (Op.fromJsonText text).runOn s = (.ok v, m) ∧ s.Keeps m ∧
      (Mapping.loadJson ref text).runOn s =
        (.error (.shape "from_json" ⟨m.typeName v, "dict"⟩), m) := by
  obtain ⟨v, m, arrived, built⟩ := HostValue.restored_ofJson tree s
  have read : (Op.fromJsonText text).runOn s = (.ok v, m) := by
    rw [Op.runOn_fromJsonText parsed, arrived]
  have refused := unpack_of_mirrors (built.added m fun _ _ _ => rfl)
    (HostValue.ofJson_ne_map other)
  refine ⟨v, m, read, fun ref inside => built.kept ref inside not_false, ?_⟩
  rw [Mapping.runOn_loadJson cell, if_neg Bool.false_ne_true, Op.runOn_bind,
    runOn_dictFromJsonText read, refused]

theorem Reachable.loads_object (reachable : s.Reachable)
    (cell : s.cell ref = .mapping name dict false) {old : List (Value × Value)}
    (under : s.cell dict = .dict old frozen) {sorted : List (String × Json)}
    (parsed : Json.parse text = .ok (.object sorted)) :
    ∃ members decoded fields m, Json.HasMembers text members ∧
      (Op.fromJsonText text).runOn s = (.ok (.object decoded), m) ∧ s.Keeps m ∧
      m.cell decoded = .dict (textEntries fields) false ∧ Mapping.Decodes m members fields ∧
      (Mapping.loadJson ref text).runOn s =
        if frozen = true ∧ members ≠ [] then (.error (.frozen "insert" "dict"), m)
        else (.ok (), m.write dict (.dict (overlay old fields) frozen)) := by
  have inside : dict.index < s.size := lt_size_of_isContainer (by rw [under]; rfl)
  obtain ⟨members, spelled, rfl⟩ := Json.parse_eq_object_iff.1 parsed
  obtain ⟨r, fields, m, read, keeps, later, decoded, decodes, data⟩ :=
    reachable.decodes inside parsed
  refine ⟨members, r, fields, m, spelled, read, keeps, decoded, decodes, ?_⟩
  have isDict : m.unpack .dict (.object r) = .ok r := if_pos (by rw [decoded])
  have has : ∀ field ∈ fields, m.Has field.2 := fun field isField => by
    have isPart : field.2 ∈ (m.cell r).held := by
      rw [decoded]
      exact mem_entryParts.2 ⟨_, field_mem_textEntries.2 isField, .inr rfl⟩
    exact later.sound.closed r _ isPart
  have merged := Mapping.runOn_merge_data "load_json" later.sound
    ((keeps dict inside).trans under) (reachable.wellKeyed.textsDistinct under)
    (later.wellKeyed.nodup decoded (.refl _)) has data
  rw [Mapping.runOn_loadJson cell, if_neg Bool.false_ne_true, Op.runOn_bind,
    runOn_dictFromJsonText read, isDict]
  dsimp only
  rw [Op.runOn_bind_of_ok (Dict.runOn_entries r), dictEntries_of_cell decoded, merged]
  simp only [ne_eq, fields_eq_nil_iff decodes]

theorem Reachable.loads (reachable : s.Reachable) (cell : s.cell ref = .mapping name dict flag)
    {old : List (Value × Value)} (under : s.cell dict = .dict old frozen) (text : String) :
    Mapping.Loads s ref dict name flag frozen old text where
  sealed := fun closed => by
    rw [Mapping.runOn_loadJson cell, if_pos closed]
  unread := fun isOpen _ => loads_unread (isOpen ▸ cell)
  misshapen := fun isOpen _ => loads_misshapen (isOpen ▸ cell)
  object := fun isOpen _ => reachable.loads_object (isOpen ▸ cell) under

/-- A bound method loads a text. -/
theorem runOn_run_fromJson (call : Ref → List Value → Op Value) (text : String) :
    (Mapping.run call ref .fromJson [.string text]).runOn s =
      (Mapping.loadJson ref text >>= fun _ => pure Value.nothing).runOn s := by
  rw [Mapping.runOn_run_of_count .fromJson [.string text] rfl rfl, Op.runOn_bind, Op.runOn_get]
  rfl

open Script in
/-- A script loads a text; a fault is thrown as an error with its message. -/
theorem runIn_fromJson (call : Caller) (text : String) (u : Session) :
    (runMethod call ref .fromJson [.string text]).runIn u =
      match (Mapping.loadJson ref text).runOn u.store with
      | (.ok _, t) => (.ok .undefined, { u with store := t })
      | (.error fault, t) => (raiseFault fault).runIn { u with store := t } := by
  have body : runMethod call ref .fromJson [.string text] = shielded (do
      Run.onStore (Mapping.loadJson ref text)
      return .undefined) := rfl
  rw [body, shielded, Run.runIn_tryCatch, Run.runIn_bind, Run.runIn_onStore]
  rcases (Mapping.loadJson ref text).runOn u.store with ⟨_ | _, t⟩ <;> rfl

/-- A JSON text is loaded into a mapping as a whole or not at all. It is refused when the mapping is
frozen, when it cannot be read, when it is not of an object, and when the dict is frozen alone and the
object has a member; then every cell is what it was. Else the members are laid over the entries, with
the values that the text is read as. Bound methods and scripts do the same. -/
theorem Reachable.loadJson_outcome (reachable : s.Reachable)
    (cell : s.cell ref = .mapping name dict flag) (text : String) :
    ∃ old frozen, s.cell dict = .dict old frozen ∧
      Mapping.Loads s ref dict name flag frozen old text ∧
      (∀ call, (Mapping.run call ref .fromJson [.string text]).runOn s =
        (Mapping.loadJson ref text >>= fun _ => pure Value.nothing).runOn s) ∧
      ∀ (call : Script.Caller) (u : Script.Session), u.store = s →
        (Script.runMethod call ref .fromJson [.string text]).runIn u =
          match (Mapping.loadJson ref text).runOn s with
          | (.ok _, t) => (.ok .undefined, { u with store := t })
          | (.error fault, t) => (Script.raiseFault fault).runIn { u with store := t } := by
  obtain ⟨old, frozen, under, -⟩ := reachable.sound.wrapped ref name dict flag cell
  refine ⟨old, frozen, under, reachable.loads cell under text,
    fun call => runOn_run_fromJson call text, ?_⟩
  rintro call u rfl
  exact runIn_fromJson call text u

/-- A dict with a text and a number for keys, and a mapping over a copy of it. -/
def primed : Store :=
  empty.after [.newDict [(.string "b", .int 1), (.int 5, .int 6)], .mappingOf "shared_dict" ⟨0⟩]

theorem reachable_primed : primed.Reachable :=
  reachable_empty.after ⟨⟨by decide, nofun⟩, ⟨by decide, nofun⟩, trivial⟩

/-- The text of an object with a repeated name. -/
def repeating : String := "\x7b\"b\":true,\"a\":null,\"b\":[]\x7d"

theorem parse_repeating :
    Json.parse repeating = .ok (.object [("a", .null), ("b", .array [])]) := by
  have blank := Json.blank_nil
  have inside : Json.Inside '\x7d' (Json.Member (Json.Spells 126))
      [("b", .bool true), ("a", .null), ("b", .array [])] _ :=
    .some blank (.mk "b" blank blank (.leaf .true))
      (.more blank blank (.mk "a" blank blank (.leaf .null))
        (.more blank blank (.mk "b" blank blank (.array (.empty blank))) (.close blank)))
  have plain : ("b" : String) ≠ Json.numberName := by decide
  have spells : Json.Spells Json.maxDepth _ _ := .object inside fun _ first => by
    cases first
    exact plain
  exact Json.parse_of_spells spells

/-- An object with a repeated name is loaded. -/
theorem loadJson_outcome_primed :
    primed.Reachable ∧ primed.cell ⟨2⟩ = .mapping "shared_dict" ⟨1⟩ false ∧
    Json.parse repeating = .ok (.object [("a", .null), ("b", .array [])]) ∧
    ∃ members fields m, Json.HasMembers repeating members ∧ Mapping.Decodes m members fields ∧
      (Mapping.loadJson ⟨2⟩ repeating).runOn primed =
        (.ok (), m.write ⟨1⟩
          (.dict (overlay [(.string "b", .int 1), (.int 5, .int 6)] fields) false)) := by
  have cell : primed.cell ⟨2⟩ = .mapping "shared_dict" ⟨1⟩ false := rfl
  obtain ⟨old, frozen, under, loads, -⟩ := reachable_primed.loadJson_outcome cell repeating
  have held : primed.cell ⟨1⟩ = .dict [(.string "b", .int 1), (.int 5, .int 6)] false := rfl
  rw [held] at under
  cases under
  obtain ⟨members, _, fields, m, spelled, -, -, -, decodes, loaded⟩ :=
    loads.object rfl _ parse_repeating
  rw [if_neg fun both => Bool.false_ne_true both.1] at loaded
  exact ⟨reachable_primed, cell, parse_repeating, members, fields, m, spelled, decodes, loaded⟩

end Store
end Interchange
