import Interchange.Proofs.Crossing.Numbers
import Interchange.Proofs.Crossing.Typed

/-!
# Texts that are written again

What a text is read as is written as the text of a canonical tree (`exists_settled`), whatever blanks,
escapes, repeated names and notations of numbers the text has. The text of a canonical tree is read as
what is written as this text again, so that one pass settles a text (`rewrites_settle`).
-/

namespace Interchange

namespace Json

variable {depth : Nat} {tree : Json} {text rest : List Char} {items : List Json}
  {members : List (String × Json)}

/-! ## Names of a tree -/

mutual

/-- The names of the members of all objects. -/
def names : Json → List String
  | .array items => namesOfItems items
  | .object members => namesOfMembers members
  | .null | .bool _ | .number _ | .string _ => []

def namesOfItems : List Json → List String
  | [] => []
  | item :: rest => names item ++ namesOfItems rest

def namesOfMembers : List (String × Json) → List String
  | [] => []
  | (name, item) :: rest => name :: names item ++ namesOfMembers rest

end

theorem names_array (items : List Json) : names (.array items) = items.flatMap names := by
  rw [names]
  induction items with
  | nil => rfl
  | cons item rest ih => rw [namesOfItems, ih, List.flatMap_cons]

theorem names_object (members : List (String × Json)) :
    names (.object members) = members.flatMap fun member => member.1 :: member.2.names := by
  rw [names]
  induction members with
  | nil => rfl
  | cons member rest ih => rw [namesOfMembers, ih, List.flatMap_cons]

theorem names_item {item : Json} (isItem : item ∈ items) : item.names ⊆ (array items).names := by
  rw [names_array]
  exact fun _ isName => List.mem_flatMap.2 ⟨item, isItem, isName⟩

theorem names_member {member : String × Json} (isMember : member ∈ members) :
    member.1 :: member.2.names ⊆ (object members).names := by
  rw [names_object]
  exact fun _ isName => List.mem_flatMap.2 ⟨member, isMember, isName⟩

/-! ## How deep a tree that is read is nested -/

/-- Containers are nested at most `depth` deep. -/
inductive Nested : (depth : Nat) → Json → Prop
  | null {depth : Nat} : Nested depth .null
  | bool {depth : Nat} (b : Bool) : Nested depth (.bool b)
  | number {depth : Nat} (n : Number) : Nested depth (.number n)
  | string {depth : Nat} (s : String) : Nested depth (.string s)
  | array {depth : Nat} {items : List Json} (each : ∀ item ∈ items, Nested depth item) :
      Nested (depth + 1) (.array items)
  | object {depth : Nat} {members : List (String × Json)}
      (each : ∀ member ∈ members, Nested depth member.2) : Nested (depth + 1) (.object members)

theorem LeafSource.nested (leaf : LeafSource tree text rest) : tree.meant.Nested depth := by
  cases leaf with
  | null => exact .null
  | true | false => exact .bool _
  | number => exact .number _
  | string => exact .string _

/-- What stands in a text is nested as deep as the text admits. -/
theorem Source.nested (source : Source depth tree text rest) : tree.meant.Nested depth := by
  induction depth generalizing tree text rest with
  | zero => exact LeafSource.nested source
  | succ depth ih =>
    cases source with
    | leaf leaf => exact leaf.nested
    | array _ inside =>
      rw [meant, meantItems_eq_map]
      refine .array (List.forall_mem_map.2 fun item isItem => ?_)
      obtain ⟨_, _, source⟩ := inside.element item isItem
      exact ih source
    | object _ inside =>
      rw [meant, meantMembers_eq_map]
      refine .object (List.forall_mem_map.2 fun member isMember => ?_)
      obtain ⟨_, _, source⟩ := inside.element member (HostValue.mem_ofList isMember)
      cases source with
      | mk _ _ source => exact ih source
    | number => exact .number _

theorem nested_of_parse {text : String} (parsed : parse text = .ok tree) : tree.Nested maxDepth := by
  obtain ⟨source, ⟨_, stands, -⟩, rfl⟩ := source_of_parse parsed
  exact stands.nested

end Json

/-! ## The tree that a tree settles to -/

namespace HostValue

open Json

variable {depth : Nat} {tree : Json}

/-- The host form of a tree has a canonical tree, which JSON has a form for again. -/
structure Settles (depth : Nat) (tree settled : Json) : Prop where
  made : (ofJson tree).toJson = .ok settled
  canonical : settled.Canonical
  jsonable : (ofJson settled).Jsonable depth

theorem settles_int {n : Number} {i : Int} (meant : n.meant = .integer i) :
    Settles depth (.number n) (.ofInt i) where
  made := by
    rw [ofJson, meant]
    exact toJson_ofInt i
  canonical := .int i
  jsonable := .int i

theorem exists_settled_float (x : Binary64) : ∃ settled : Json,
    (float (if x.isFinite then x else .nan)).toJson = .ok settled ∧ settled.Canonical ∧
      (ofJson settled).Jsonable depth := by
  cases x with
  | finite negative rank =>
    refine ⟨.ofBinary64 (.finite negative rank), rfl, .float negative rank, ?_⟩
    rw [ofJson_ofBinary64]
    exact .float negative rank
  | infinity | nan => exact ⟨.null, rfl, .null, .null⟩

theorem exists_settled_number (n : Number) : ∃ settled, Settles depth (.number n) settled := by
  cases meant : n.meant with
  | integer i => exact ⟨_, settles_int meant⟩
  | decimal | written =>
    obtain ⟨settled, made, canonical, jsonable⟩ := exists_settled_float n.meant.toBinary64
    refine ⟨settled, ?_, canonical, jsonable⟩
    rw [meant] at made
    rw [ofJson, meant]
    exact made

theorem settles_array {items others : List Json} (each : List.Forall₂ (Settles depth) items others) :
    Settles (depth + 1) (.array items) (.array others) where
  made := toJson_ofJson_array (each.imp fun _ _ settles => settles.made)
  canonical := .array fun other isOther => by
    obtain ⟨item, -, settles⟩ := exists_left each isOther
    exact settles.canonical
  jsonable := by
    rw [ofJson, ofJsonItems_eq_map]
    refine .list (List.forall_mem_map.2 fun other isOther => ?_)
    obtain ⟨item, -, settles⟩ := exists_left each isOther
    exact settles.jsonable

/-- An object settles member by member, once its names are in order. -/
theorem settles_object {members others : List (String × Json)}
    (plain : ∀ member ∈ members, member.1 ≠ numberName)
    (each : List.Forall₂ (fun member other => member.1 = other.1 ∧ Settles depth member.2 other.2)
      (TextMap.ofList members) others) :
    Settles (depth + 1) (.object members) (.object others) := by
  have names : (TextMap.ofList members).map Prod.fst = others.map Prod.fst :=
    map_eq_of_forall₂ each fun _ _ both => both.1
  have ascending : (others.map Prod.fst).Pairwise (· < ·) := names ▸ TextMap.ascending_ofList members
  constructor
  case made => exact toJson_ofJson_object (each.imp fun _ _ both => ⟨both.1, both.2.made⟩)
  case canonical =>
    refine .object ascending fun other isOther => ?_
    obtain ⟨member, -, -, settles⟩ := exists_left each isOther
    exact settles.canonical
  case jsonable =>
    rw [ofJson_object_of_ascending ascending]
    refine .map (by rwa [map_fst_ofJsonMembers]) ?_ ?_
    all_goals
      rw [ofJsonMembers_eq_map]
      refine List.forall_mem_map.2 fun other isOther => ?_
      obtain ⟨member, isMember, same, settles⟩ := exists_left each isOther
    · exact same ▸ plain member (mem_ofList isMember)
    · exact settles.jsonable

/-- A tree settles when no member in it goes by the name that stands for a number. -/
theorem exists_settled (nested : tree.Nested depth) (free : numberName ∉ tree.names) :
    ∃ settled, Settles depth tree settled := by
  induction nested with
  | null => exact ⟨.null, rfl, .null, .null⟩
  | bool b => exact ⟨.bool b, rfl, .bool b, .bool b⟩
  | number n => exact exists_settled_number n
  | string s => exact ⟨.string s, rfl, .string s, .string s⟩
  | @array depth items _ ih =>
    have inside : ∀ item ∈ items, ∃ settled, Settles depth item settled := fun item isItem =>
      ih item isItem fun isName => free (names_item isItem isName)
    obtain ⟨others, each⟩ := Store.exists_forall₂ inside
    exact ⟨_, settles_array each⟩
  | @object depth members _ ih =>
    have inside : ∀ member ∈ TextMap.ofList members, ∃ other : String × Json,
        member.1 = other.1 ∧ Settles depth member.2 other.2 := fun member isSorted => by
      have isMember := mem_ofList isSorted
      obtain ⟨settled, settles⟩ :=
        ih member isMember fun isName => free (names_member isMember (.tail _ isName))
      exact ⟨(member.1, settled), rfl, settles⟩
    obtain ⟨others, each⟩ := Store.exists_forall₂ inside
    have plain : ∀ member ∈ members, member.1 ≠ numberName := fun member isMember same =>
      free (same ▸ names_member isMember List.mem_cons_self)
    exact ⟨_, settles_object plain each⟩

end HostValue

namespace Store

variable {s t : Store} {v : Value} {text : String} {tree : Json}

/-- Read in any store, the text gives a value that is written as the other text. -/
def Rewrites (text other : String) : Prop :=
  ∀ s : Store, ∃ v t, (Op.fromJsonText text).runOn s = (.ok v, t) ∧ t.toJsonText v = .ok other

theorem rewrites_of_parse {written : Json} (parsed : Json.parse text = .ok tree)
    (made : (HostValue.ofJson tree).toJson = .ok written) : Rewrites text written.compact := by
  intro s
  obtain ⟨v, t, arrived, built⟩ := HostValue.restored_ofJson tree s
  have mirrors : t.Mirrors (.ofJson tree) v := built.added t fun _ _ _ => rfl
  exact ⟨v, t, by rw [Op.runOn_fromJsonText parsed, arrived],
    toJsonText_of_unfolds mirrors.unfolds made⟩

/-- A text that is read settles in one pass, where no member goes by the name that stands for a number.
What is written for what it is read as is the text of a canonical tree, and what is written for what
this is read as is the very same text. -/
theorem rewrites_settle (accepted : (Op.fromJsonText text).runOn s = (.ok v, t))
    (free : ∀ tree, Json.parse text = .ok tree → Json.numberName ∉ tree.names) :
    ∃ settled : Json, settled.Canonical ∧ t.toJsonText v = .ok settled.compact ∧
      Rewrites text settled.compact ∧ Rewrites settled.compact settled.compact := by
  obtain ⟨tree, parsed, mirrors⟩ := fromJsonText_ok accepted
  obtain ⟨settled, made, canonical, jsonable⟩ :=
    HostValue.exists_settled (Json.nested_of_parse parsed) (free tree parsed)
  refine ⟨settled, canonical, toJsonText_of_unfolds mirrors.unfolds made,
    rewrites_of_parse parsed made, ?_⟩
  obtain ⟨tree', read, made', same, parsed', -⟩ := jsonable.parse_text
  obtain rfl : settled = tree' := Except.ok.inj (canonical.toJson_ofJson.symm.trans made')
  exact rewrites_of_parse parsed' (same ▸ made')

/-- A text with blanks, an escape, a name that comes twice and numbers in many notations. -/
def untidy : String :=
  " \x7b \"b\" : 1e2 , \"\\u0061\" :\t[ -0 , 12345678901234567890 , 1E400 ] , \"b\" : 0.10 \x7d "

/-- What it settles to. -/
def tidy : String := "\x7b\"a\":[0,12345678901234567890,null],\"b\":0.1\x7d"

/-- The text settles in one pass. -/
theorem rewrites_settle_untidy :
    ∃ t, (Op.fromJsonText untidy).runOn empty = (.ok (.object ⟨0⟩), t) ∧
      t.toJsonText (.object ⟨0⟩) = .ok tidy ∧ Rewrites untidy tidy ∧ Rewrites tidy tidy := by
  have read : ∃ t, (Op.fromJsonText untidy).runOn empty = (.ok (.object ⟨0⟩), t) ∧
      t.toJsonText (.object ⟨0⟩) = .ok tidy := exists_of_runOn (by decide +kernel) (by decide +kernel)
  have free : ∀ tree ∈ (Json.parse untidy).toOption, Json.numberName ∉ tree.names := by
    decide +kernel
  obtain ⟨t, accepted, text⟩ := read
  obtain ⟨settled, -, text', rewrites, again⟩ :=
    rewrites_settle accepted fun tree parsed => free tree (by rw [parsed]; rfl)
  have same : settled.compact = tidy := Except.ok.inj (text'.symm.trans text)
  rw [same] at rewrites again
  exact ⟨t, accepted, text, rewrites, again⟩

end Store
end Interchange
