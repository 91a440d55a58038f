import Interchange.Proofs.Crossing.JsonText
import Interchange.Proofs.Crossing.Members

/-!
# Typed exchange

What a typed sender gives comes to a typed receiver as the tree that was sent
(`HostValue.typed_exchange`): as a value, or as a record when it is an object. The tree is canonical
(`Json.Canonical`) when it is sent, its names in order and its numbers integers or shortest decimals.
A canonical tree has a host value that has the tree again (`Canonical.toJson_ofJson`) and arrives as
something that it mirrors (`Canonical.restored`).
-/

namespace Interchange

/-! ## Canonical trees -/

namespace Json

/-- A tree as it is exchanged: numbers are integers and the shortest decimals of floats, and the names
of each object ascend. -/
inductive Canonical : Json → Prop
  | null : Canonical .null
  | bool (b : Bool) : Canonical (.bool b)
  | int (i : Int) : Canonical (.ofInt i)
  | float (negative : Bool) (rank : Fin infiniteRank) :
      Canonical (.ofBinary64 (.finite negative rank))
  | string (s : String) : Canonical (.string s)
  | array {items : List Json} (each : ∀ item ∈ items, Canonical item) : Canonical (.array items)
  | object {members : List (String × Json)} (ascending : (members.map Prod.fst).Pairwise (· < ·))
      (each : ∀ member ∈ members, Canonical member.2) : Canonical (.object members)

variable {tree : Json}

theorem normalizeItems_eq_map (items : List Json) : normalizeItems items = items.map normalize := by
  induction items with
  | nil => rfl
  | cons item rest ih => rw [normalizeItems, ih, List.map_cons]

theorem normalizeMembers_eq_map (members : List (String × Json)) :
    normalizeMembers members = members.map fun member => (member.1, normalize member.2) := by
  induction members with
  | nil => rfl
  | cons member rest ih => rw [normalizeMembers, ih, List.map_cons]

/-- A canonical tree is in order already. -/
theorem Canonical.normalize_eq (canonical : tree.Canonical) : tree.normalize = tree := by
  induction canonical with
  | null | bool | int | float | string => rfl
  | array _ ih => rw [normalize, normalizeItems_eq_map, List.map_congr_left ih, List.map_id']
  | object ascending _ ih =>
    rw [normalize, normalizeMembers_eq_map,
      List.map_congr_left fun member isMember => by rw [ih member isMember], List.map_id',
      TextMap.ofList_of_ascending ascending]

theorem canonical_array {items : List Json} (each : ∀ item ∈ items, item.normalize.Canonical) :
    (normalize (.array items)).Canonical := by
  rw [normalize, normalizeItems_eq_map]
  exact .array (List.forall_mem_map.2 each)

theorem canonical_object {members : List (String × Json)}
    (each : ∀ member ∈ members, member.2.normalize.Canonical) :
    (normalize (.object members)).Canonical := by
  rw [normalize, normalizeMembers_eq_map]
  refine .object (TextMap.ascending_ofList _) fun member isMember => ?_
  obtain ⟨source, isSource, rfl⟩ := List.mem_map.1 (HostValue.mem_ofList isMember)
  exact each source isSource

end Json

namespace HostValue

open Json (Canonical)

variable {h : HostValue} {tree : Json}

/-- Trees of host values are canonical once their names are in order. -/
theorem canonical_normalize : (h : HostValue) → {tree : Json} → h.toJson = .ok tree →
    tree.normalize.Canonical
  | .null, _, rfl => .null
  | .bool b, _, rfl => .bool b
  | .int i, _, rfl => .int i
  | .wide i, _, rfl => .int i
  | .float (.finite negative rank), _, rfl => .float negative rank
  | .float (.infinity _), _, rfl => .null
  | .float .nan, _, rfl => .null
  | .string s, _, rfl => .string s
  | .bytes b, _, rfl =>
    Json.canonical_array (List.forall_mem_map.2 fun byte _ => .int byte.toNat)
  | .time t, _, rfl => .string t.text
  | .list items, tree, made => by
    rw [toJson, Store.bind_ok_iff] at made
    obtain ⟨trees, made, rfl⟩ := made
    refine Json.canonical_array fun tree isTree => ?_
    obtain ⟨item, isItem, made⟩ := exists_left (itemsToJson_ok made) isTree
    exact canonical_normalize item made
  | .map entries, tree, made => by
    rw [toJson, Store.bind_ok_iff] at made
    obtain ⟨members, made, rfl⟩ := made
    refine Json.canonical_object fun member isMember => ?_
    obtain ⟨entry, isEntry, -, made⟩ := exists_left (entriesToJson_ok made) isMember
    exact canonical_normalize entry.2 made
  | .pairs entries, tree, made => by
    rw [toJson, Store.bind_ok_iff] at made
    obtain ⟨members, made, rfl⟩ := made
    refine Json.canonical_object fun member isMember => ?_
    obtain ⟨entry, isEntry, -, made⟩ := exists_left (pairsToJson_ok made) isMember
    exact canonical_normalize entry.2 made
  | .native _, _, made => nomatch made
termination_by h => h
decreasing_by
  · have := List.sizeOf_lt_of_mem isItem
    simp
    omega
  all_goals
    have := List.sizeOf_lt_of_mem isEntry
    obtain ⟨key, value⟩ := entry
    simp at this ⊢
    omega

/-! ## Canonical trees as host values -/

/-- The shortest decimal of a float is read as the float. -/
theorem ofJson_ofBinary64 (negative : Bool) (rank : Fin infiniteRank) :
    ofJson (.ofBinary64 (.finite negative rank)) = .float (.finite negative rank) := by
  rw [Json.ofBinary64, ofJson]
  simp only [Json.Number.meant, Json.Number.toBinary64, Decimal.toBinary64_shortest]
  rfl

/-- The host value of an array has the array of the trees that those of the elements have. -/
theorem toJson_ofJson_array {items others : List Json}
    (each : List.Forall₂ (fun item other => (ofJson item).toJson = .ok other) items others) :
    (ofJson (.array items)).toJson = .ok (.array others) := by
  have trees : itemsToJson (items.map ofJson) = .ok others :=
    itemsToJson_of_forall₂ (List.forall₂_map_left_iff.2 each)
  rw [ofJson, ofJsonItems_eq_map, toJson, trees]
  rfl

/-- The host value of an object has the object of the trees that those of the members have, in order
of names. -/
theorem toJson_ofJson_object {members others : List (String × Json)}
    (each : List.Forall₂ (fun member other => member.1 = other.1 ∧
      (ofJson member.2).toJson = .ok other.2) (TextMap.ofList members) others) :
    (ofJson (.object members)).toJson = .ok (.object others) := by
  have trees : entriesToJson ((TextMap.ofList members).map fun member =>
      (member.1, ofJson member.2)) = .ok others :=
    entriesToJson_of_forall₂ (List.forall₂_map_left_iff.2 each)
  rw [ofJson, ofEntries, ofJsonMembers_eq_map, TextMap.ofList_map, toJson, trees]
  rfl

end HostValue

namespace Json

open HostValue

variable {tree : Json}

/-- A canonical tree is the tree of its host value. -/
theorem Canonical.toJson_ofJson (canonical : tree.Canonical) : (ofJson tree).toJson = .ok tree := by
  induction canonical with
  | null | bool | string => rfl
  | int i => exact toJson_ofInt i
  | float negative rank =>
    rw [ofJson_ofBinary64]
    rfl
  | array _ ih => exact toJson_ofJson_array (List.forall₂_same.2 ih)
  | object ascending _ ih =>
    refine toJson_ofJson_object ?_
    rw [TextMap.ofList_of_ascending ascending]
    exact List.forall₂_same.2 fun member isMember => ⟨rfl, ih member isMember⟩

/-- The host value of a canonical tree arrives in every store, as something that it mirrors. -/
theorem Canonical.restored (canonical : tree.Canonical) : (ofJson tree).Restored := by
  induction canonical with
  | null => exact restored_scalar rfl fun _ => .null
  | bool b => exact restored_scalar rfl fun _ => .bool b
  | int i => exact restored_scalar (scalar?_ofInt i) fun _ => .int rfl
  | float negative rank =>
    rw [ofJson_ofBinary64]
    exact restored_scalar rfl fun _ => .float _
  | string s => exact restored_scalar rfl fun _ => .string s
  | array _ ih =>
    rw [ofJson, ofJsonItems_eq_map]
    exact restored_list (List.forall_mem_map.2 ih)
  | @object members ascending _ ih =>
    rw [ofJson_object_of_ascending ascending]
    refine restored_map (by rwa [map_fst_ofJsonMembers]) ?_
    rw [ofJsonMembers_eq_map]
    exact List.forall_mem_map.2 ih

/-- A canonical tree that is no object is not received as a map. -/
theorem Canonical.not_map (canonical : tree.Canonical) (other : ∀ members, tree ≠ .object members)
    (named : List (String × HostValue)) : ofJson tree ≠ .map named := by
  cases canonical with
  | null | bool | string | array => exact nofun
  | int i =>
    change HostValue.ofInt i ≠ .map named
    unfold HostValue.ofInt
    split <;> exact nofun
  | float negative rank =>
    rw [ofJson_ofBinary64]
    exact nofun
  | object => exact absurd rfl (other _)

end Json

/-! ## Records of what was sent -/

namespace Store

variable {s t : Store} {h : HostValue} {v : Value} {ref : Ref} {tag : String} {tree : Json}
  {fields : List (String × Value)} {frozen : Bool}

theorem mapM_fieldOfEntry (s : Store) (fields : List (String × Value)) :
    (textEntries fields).mapM s.fieldOfEntry = .ok fields :=
  mapM_ok_iff.2 (List.forall₂_map_left_iff.2 (List.forall₂_same.2 fun _ _ => rfl))

theorem runOn_recordFromTyped (ran : (Op.fromTyped h).runOn s = (.ok (.object ref), t))
    (cell : t.cell ref = .dict (textEntries fields) frozen) (distinct : (fields.map Prod.fst).Nodup) :
    (Op.recordFromTyped tag h).runOn s =
      (Op.new (.record (.string tag) fields)).runOn t := by
  have unpacked : t.unpack .dict (.object ref) = .ok ref := by
    rw [unpack, unpackCell, cell]
    rfl
  have listed : t.dictEntries ref = textEntries fields := by rw [dictEntries, cell]
  rw [Op.recordFromTyped, Op.runOn_bind_of_ok ran, Op.runOn_bind_of_ok Op.runOn_get]
  have read : (Op.ofExcept ((t.dictEntries ref).mapM t.fieldOfEntry)).runOn t = (.ok fields, t) := by
    rw [listed, mapM_fieldOfEntry, Op.runOn_ofExcept]
  simp only [unpacked]
  rw [Op.runOn_bind_of_ok read, Op.newRecord, Fields.ofEntries_of_distinct distinct]

/-- Only what is received as a dict becomes a record. -/
theorem runOn_recordFromTyped_refused (ran : (Op.fromTyped h).runOn s = (.ok v, t))
    (other : ∀ ref entries frozen, v = .object ref → t.cell ref ≠ .dict entries frozen) :
    (Op.recordFromTyped tag h).runOn s =
      (.error (.shape "to_struct" ⟨t.typeName v, "dict"⟩), t) := by
  have refused : t.unpack .dict v = .error ⟨t.typeName v, "dict"⟩ := by
    cases v with
    | object ref =>
      rw [unpack, unpackCell]
      cases cell : t.cell ref with
      | dict entries frozen => exact absurd cell (other ref entries frozen rfl)
      | _ => rfl
    | _ => rfl
  rw [Op.recordFromTyped, Op.runOn_bind_of_ok ran, Op.runOn_bind_of_ok Op.runOn_get]
  simp only [refused]
  rfl

theorem Mirrors.not_dict (mirrors : s.Mirrors h v) (other : ∀ named, h ≠ .map named) (ref : Ref)
    (entries : List (Value × Value)) (frozen : Bool) (isObject : v = .object ref) :
    s.cell ref ≠ .dict entries frozen := by
  subst isObject
  cases mirrors with
  | list cell =>
    rw [cell]
    exact nofun
  | map => exact absurd rfl (other _)

/-- What unfolds as the host value of a canonical tree gives a typed receiver the tree. -/
theorem toTree_of_unfolds (canonical : tree.Canonical)
    (unfolds : s.Unfolds v (HostValue.ofJson tree)) : s.toTree v = .ok tree := by
  rw [toTree, writtenTree_of_unfolds unfolds canonical.toJson_ofJson]
  exact congrArg Except.ok canonical.normalize_eq

/-- A record of the fields of an image unfolds as the image. -/
theorem unfolds_record {named inOrder : List (String × HostValue)}
    (inStep : List.Forall₂ (fun other field => other.1 = field.1 ∧ s.Mirrors other.2 field.2) inOrder
      fields) (sorted : inOrder.Perm named) (ascending : (named.map Prod.fst).Pairwise (· < ·)) :
    ((s.alloc (.record (.string tag) fields)).2).Unfolds
      (.object (s.alloc (.record (.string tag) fields)).1) (.map named) := by
  have kept (ref : Ref) (inside : ref.index < s.size) :
      (s.alloc (.record (.string tag) fields)).2.cell ref = s.cell ref :=
    cell_alloc_other s _ inside
  have cell := cell_alloc_self s (.record (.string tag) fields)
  generalize (s.alloc (.record (.string tag) fields)).1 = ref at cell ⊢
  generalize (s.alloc (.record (.string tag) fields)).2 = u at kept cell ⊢
  have isOpen : u.Open ref := by
    rw [Open, cell]
    rfl
  have unfolds : u.Unfolds (.object ref) (.ofEntries inOrder) :=
    .named isOpen (by rw [anatomy, cell]) (names_eq_iff.2 (inStep.imp fun _ _ both => both.1)).symm
      fun pair isPair =>
        (((List.forall₂_iff_zip.1 inStep).2 (mem_zip_swap isPair)).2.kept kept).unfolds
  rwa [HostValue.ofEntries, TextMap.ofList_of_perm sorted ascending] at unfolds

end Store

namespace HostValue

open Store

variable {h : HostValue} {tree : Json}

/-- **What is sent comes to the receiver.** What a typed sender gives becomes a value, and a typed
receiver of the value is given the tree that was sent. It becomes a record under every name exactly
when the tree is an object, and a typed receiver of the record is given the same tree. -/
theorem typed_exchange (s : Store) (made : h.toJson = .ok tree) :
    ∃ v t, (Op.fromTyped h).runOn s = (.ok v, t) ∧ t.toTree v = .ok tree.normalize ∧
      ∀ tag : String,
        ((∃ members, tree.normalize = .object members) → ∃ ref fields u,
          (Op.recordFromTyped tag h).runOn s = (.ok (.object ref), u) ∧
          u.cell ref = .record (.string tag) fields ∧
          u.toTree (.object ref) = .ok tree.normalize) ∧
        ((∀ members, tree.normalize ≠ .object members) → (Op.recordFromTyped tag h).runOn s =
          (.error (.shape "to_struct" ⟨t.typeName v, "dict"⟩), t)) := by
  have canonical := canonical_normalize h made
  obtain ⟨v, t, arrived, built⟩ := canonical.restored s
  have ran : (Op.fromTyped h).runOn s = (.ok v, t) := by
    rw [Op.fromTyped, made]
    exact arrived
  have mirrors : t.Mirrors (ofJson tree.normalize) v := built.added t fun _ _ _ => rfl
  refine ⟨v, t, ran, toTree_of_unfolds canonical mirrors.unfolds, fun tag =>
    ⟨fun ⟨members, isObject⟩ => ?_, fun other => ?_⟩⟩
  · rw [isObject] at canonical mirrors ⊢
    cases canonical with
    | object ascending each =>
      have image := ofJson_object_of_ascending ascending
      rw [image] at mirrors
      obtain ⟨ref, fields, frozen, inOrder, rfl, cell, inStep, sorted, ascends⟩ := mirrors.of_map
      have distinct : (fields.map Prod.fst).Nodup := by
        rw [← names_eq_iff.2 (inStep.imp fun _ _ both => both.1)]
        exact ((sorted.map Prod.fst).nodup_iff).2 (TextMap.distinct_of_ascending ascends)
      refine ⟨_, fields, _, runOn_recordFromTyped ran cell distinct,
        cell_alloc_self t (.record (.string tag) fields), ?_⟩
      refine toTree_of_unfolds (.object ascending each) ?_
      rw [image]
      exact unfolds_record inStep sorted ascends
  · exact runOn_recordFromTyped_refused ran (mirrors.not_dict (canonical.not_map other))

/-- Pairs with keys of several kinds, which are out of order as texts. -/
def sent : HostValue :=
  .pairs [(.null, .list [.wide 7, .float .nan]), (.string "b", .bytes [1, 255]),
    (.wide (-12), .map [("x", .float floatOne)])]

/-- The tree of the pairs, with its names in order. -/
def sentTree : Json :=
  .object [("-12", .object [("x", .ofBinary64 floatOne)]), ("b", .array [.ofInt 1, .ofInt 255]),
    ("null", .array [.ofInt 7, .null])]

/-- The pairs come to the receiver as a dict and as a record. A list of them becomes no record. -/
theorem typed_exchange_sent :
    (∃ v t, (Op.fromTyped sent).runOn .empty = (.ok v, t) ∧ t.toTree v = .ok sentTree) ∧
    (∃ ref u, (Op.recordFromTyped "job" sent).runOn .empty = (.ok (.object ref), u) ∧
      u.toTree (.object ref) = .ok sentTree) ∧
    ∃ mismatch t, (Op.recordFromTyped "job" (.list [sent])).runOn .empty =
      (.error (.shape "to_struct" mismatch), t) := by
  have made : sent.toJson = .ok (.object [("null", .array [.ofInt 7, .null]),
      ("b", .array [.ofInt 1, .ofInt 255]), ("-12", .object [("x", .ofBinary64 floatOne)])]) := rfl
  have madeList : (HostValue.list [sent]).toJson = .ok (.array [.object
      [("null", .array [.ofInt 7, .null]), ("b", .array [.ofInt 1, .ofInt 255]),
        ("-12", .object [("x", .ofBinary64 floatOne)])]]) := rfl
  obtain ⟨v, t, ran, received, records⟩ := typed_exchange .empty made
  obtain ⟨ref, -, u, recorded, -, receivedRecord⟩ := (records "job").1 ⟨_, rfl⟩
  obtain ⟨_, _, -, -, refused⟩ := typed_exchange .empty madeList
  exact ⟨⟨v, t, ran, received⟩, ⟨ref, u, recorded, receivedRecord⟩,
    _, _, (refused "job").2 nofun⟩

end HostValue
end Interchange
