import Interchange.Proofs.Crossing.ArrivalConduct
import Interchange.Proofs.Crossing.Restoring
import Interchange.Proofs.Store.Matching

/-!
# There and back for data

Data made of scalars, lists, tuples, sets and dicts departs always. It comes back as what it is with
lists in place of its tuples and sets (`Store.Listing`), unless a tuple is a key somewhere in it: a
host value has no tuples, so such a key comes back as a list, which is refused
(`Reachable.data_returns`).

The parts of a value depart, and come back or are refused, each on its own (`Store.Crossing`).
-/

namespace Interchange

open HostValue

namespace Store

/-- A value made of scalars, lists, tuples, sets and dicts that leads to no cycle. -/
inductive Data (s : Store) : Value → Prop
  | scalar {v : Value} (scalar : v.identity? = none) : Data s v
  /-- Lists, tuples and sets. -/
  | sequence {ref : Ref} {items : List Value} (anatomy : s.anatomy ref = .sequence items)
      (each : ∀ item ∈ items, Data s item) : Data s (.object ref)
  | dict {ref : Ref} {entries : List (Value × Value)} {frozen : Bool}
      (cell : s.cell ref = .dict entries frozen) (keys : ∀ entry ∈ entries, Data s entry.1)
      (values : ∀ entry ∈ entries, Data s entry.2) : Data s (.object ref)

/-- The keys of all dicts that a value leads to are scalars. -/
def ScalarKeys (s : Store) (v : Value) : Prop :=
  ∀ r entries frozen, s.ReachesBy Cell.parts v (.object r) → s.cell r = .dict entries frozen →
    ∀ entry ∈ entries, entry.1.identity? = none

/-- A value with lists in place of its tuples and sets; the entries of its dicts, which have scalar
keys, may come in another order. -/
inductive Listing (s : Store) : Value → Value → Prop
  | scalar {v : Value} (scalar : v.identity? = none) : Listing s v v
  | sequence {r q : Ref} {items others : List Value} {frozen : Bool}
      (anatomy : s.anatomy r = .sequence items) (cell : s.cell q = .list others frozen)
      (length : items.length = others.length)
      (each : ∀ pair ∈ items.zip others, Listing s pair.1 pair.2) :
      Listing s (.object r) (.object q)
  | dict {r q : Ref} {entries others sorted : List (Value × Value)} {frozen flag : Bool}
      (cell : s.cell r = .dict entries frozen) (cell' : s.cell q = .dict others flag)
      (perm : others.Perm sorted) (scalars : ∀ key ∈ entries.map Prod.fst, key.identity? = none)
      (keys : entries.map Prod.fst = sorted.map Prod.fst)
      (values : ∀ pair ∈ entries.zip sorted, Listing s pair.1.2 pair.2.2) :
      Listing s (.object r) (.object q)

variable {s t u : Store} {v w x : Value} {ref : Ref} {items : List Value}

/-! ## Listings of a value match -/

theorem Listing.matches (first : s.Listing v x) (second : s.Listing v w) : s.Matches x w := by
  induction first generalizing w with
  | scalar scalar =>
    cases second with
    | scalar => exact .scalar (scalarEqual_iff.2 ⟨scalar, rfl⟩)
    | sequence | dict => cases scalar
  | sequence anatomy cell length _ ih =>
    cases second with
    | scalar scalar => cases scalar
    | sequence anatomy' cell' length' each' =>
      rw [anatomy] at anatomy'
      cases anatomy'
      refine .list cell cell' (length.symm.trans length') fun pair isPair => ?_
      obtain ⟨item, left, right⟩ := exists_between length.symm isPair
      exact ih _ (mem_zip_swap left) (each' _ right)
    | dict cell' =>
      rw [Store.anatomy, cell'] at anatomy
      cases anatomy
  | dict cell there perm scalars keys _ ih =>
    cases second with
    | scalar scalar => cases scalar
    | sequence anatomy' =>
      rw [Store.anatomy, cell] at anatomy'
      cases anatomy'
    | dict cell' there' perm' _ keys' values' =>
      rw [cell] at cell'
      cases cell'
      refine .dict there there' perm perm' (keys ▸ scalars) (keys.symm.trans keys') ?_
      intro pair isPair
      have length := congrArg List.length keys
      rw [List.length_map, List.length_map] at length
      obtain ⟨entry, left, right⟩ := exists_between length.symm isPair
      exact ih _ (mem_zip_swap left) (values' _ right)

/-- A listing is there. -/
theorem Listing.has (listing : s.Listing v w) : s.Has w := by
  have inside {ref : Ref} (container : (s.cell ref).isContainer = true) : s.Has (.object ref) :=
    has_object.2 (lt_size_of_isContainer container)
  cases listing with
  | scalar scalar => exact has_of_scalar scalar
  | sequence _ cell => exact inside (by rw [cell]; rfl)
  | dict _ cell' => exact inside (by rw [cell']; rfl)

/-! ## Scalar keys -/

theorem parts_of_sequence (anatomy : s.anatomy ref = .sequence items) :
    (s.cell ref).parts = items ∧ ∀ entries frozen, s.cell ref ≠ .dict entries frozen := by
  rw [Store.anatomy] at anatomy
  cases cell : s.cell ref <;> rw [cell] at anatomy <;> cases anatomy
  all_goals exact ⟨rfl, fun _ _ same => by cases same⟩

theorem sequence_of_cell (same : u.cell ref = s.cell ref)
    (anatomy : s.anatomy ref = .sequence items) : u.anatomy ref = .sequence items := by
  rw [Store.anatomy] at anatomy ⊢
  rw [same]
  cases cell : s.cell ref <;> rw [cell] at anatomy <;> cases anatomy <;> rfl

theorem scalarKeys_of_scalar (scalar : v.identity? = none) : s.ScalarKeys v := by
  intro r entries frozen reaches
  rcases Relation.ReflTransGen.cases_head reaches with rfl | ⟨_, ⟨_, rfl, _⟩, _⟩ <;> cases scalar

theorem scalarKeys_object : s.ScalarKeys (.object ref) ↔
    (∀ entries frozen, s.cell ref = .dict entries frozen →
      ∀ entry ∈ entries, entry.1.identity? = none) ∧
    ∀ part ∈ (s.cell ref).parts, s.ScalarKeys part := by
  constructor
  · intro scalars
    exact ⟨fun entries frozen => scalars ref entries frozen .refl, fun part isPart r entries frozen
      reaches => scalars r entries frozen (.head ⟨ref, rfl, isPart⟩ reaches)⟩
  · rintro ⟨here, parts⟩ r entries frozen reaches cell
    rcases Relation.ReflTransGen.cases_head reaches with same | ⟨part, ⟨_, same, isPart⟩, further⟩
    · cases same
      exact here entries frozen cell
    · cases same
      exact parts part isPart r entries frozen further cell

theorem scalarKeys_sequence (anatomy : s.anatomy ref = .sequence items) :
    s.ScalarKeys (.object ref) ↔ ∀ item ∈ items, s.ScalarKeys item := by
  obtain ⟨parts, plain⟩ := parts_of_sequence anatomy
  rw [scalarKeys_object, parts, and_iff_right fun entries frozen cell => absurd cell (plain _ _)]

theorem scalarKeys_dict {entries : List (Value × Value)} {frozen : Bool}
    (cell : s.cell ref = .dict entries frozen) : s.ScalarKeys (.object ref) ↔
      ∀ entry ∈ entries, entry.1.identity? = none ∧ s.ScalarKeys entry.2 := by
  rw [scalarKeys_object, cell]
  constructor
  · rintro ⟨here, parts⟩ entry isEntry
    exact ⟨here entries frozen rfl entry isEntry,
      parts entry.2 (mem_entryParts.2 ⟨entry, isEntry, .inr rfl⟩)⟩
  · intro each
    refine ⟨?_, fun part isPart => ?_⟩
    · rintro _ _ same
      cases same
      exact fun entry isEntry => (each entry isEntry).1
    · obtain ⟨entry, isEntry, same⟩ := mem_entryParts.1 isPart
      rcases same with rfl | rfl
      · exact scalarKeys_of_scalar (each entry isEntry).1
      · exact (each entry isEntry).2

/-- No dict is inside a key, and a key that is no scalar is a tuple. -/
theorem Data.key (aged : s.Aged) (closed : s.Closed) (has : s.Has v) (data : s.Data v)
    (hashable : s.checkHashable v = .ok ()) : s.ScalarKeys v ∧
      (v.identity? = none ∨ ∃ ref items, v = .object ref ∧ s.cell ref = .tuple items) := by
  induction data with
  | scalar scalar => exact ⟨scalarKeys_of_scalar scalar, .inl scalar⟩
  | @sequence ref items anatomy _ ih =>
    obtain ⟨plain, parts⟩ := hashable_hashed aged (has_object.1 has) hashable
    have tuple : s.cell ref = .tuple items := by
      rw [Store.anatomy] at anatomy
      cases cell : s.cell ref <;> rw [cell] at anatomy plain <;> cases anatomy <;>
        first | rfl | cases plain
    refine ⟨(scalarKeys_sequence anatomy).2 fun item isItem => ?_, .inr ⟨ref, items, rfl, tuple⟩⟩
    rw [tuple] at parts
    have held : item ∈ (s.cell ref).held := by rwa [tuple]
    exact (ih item isItem (closed ref item held) (parts item isItem)).1
  | dict cell =>
    rw [checkHashable, checkHashableWithin_container (by rw [cell]; rfl)] at hashable
    cases hashable

/-! ## Crossings -/

/-- What came back for a value: a listing of it, and a list for a list, tuple or set. -/
def Returned (s : Store) (v : Value) (u : Store) (w : Value) : Prop :=
  (s.Keeps u → u.Listing v w) ∧ ∀ ref items, v = .object ref → s.anatomy ref = .sequence items →
    ∃ q others, w = .object q ∧ u.cell q = .list others false

/-- What a value departs as: it has no handles, and it comes back, or else is refused for a key. -/
structure Crossing (s : Store) (v : Value) (h : HostValue) : Prop where
  unfolds : s.Unfolds v h
  rooted : ∀ t, h.Rooted t
  outcome : s.ScalarKeys v ∧ h.Restores (s.Returned v) ∨ ¬ s.ScalarKeys v ∧ h.Refused listFault

namespace Crossing

variable {h : HostValue}

theorem restores (crossing : s.Crossing v h) (scalars : s.ScalarKeys v) :
    h.Restores (s.Returned v) :=
  crossing.outcome.elim And.right fun refused => absurd scalars refused.1

theorem refused (crossing : s.Crossing v h) (nested : ¬ s.ScalarKeys v) : h.Refused listFault :=
  crossing.outcome.elim (fun restores => absurd restores.1 nested) And.right

theorem either (crossing : s.Crossing v h) : (∃ Q, h.Restores Q) ∨ h.Refused listFault :=
  crossing.outcome.imp (fun restores => ⟨_, restores.2⟩) And.right

end Crossing

theorem crossing_scalar (scalar : v.identity? = none) : ∃ h, s.Crossing v h := by
  have made {h : HostValue} (unfolds : s.Unfolds v h) : s.Crossing v h := by
    have same := scalar?_of_unfolds scalar unfolds
    refine ⟨unfolds, fun _ => .scalar same, .inl ⟨scalarKeys_of_scalar scalar, ?_⟩⟩
    refine restores_scalar same fun u => ⟨fun _ => .scalar scalar, fun ref items isObject => ?_⟩
    rw [isObject] at scalar
    cases scalar
  cases v with
  | object ref => cases scalar
  | nothing => exact ⟨_, made .nothing⟩
  | bool b => exact ⟨_, made (.bool b)⟩
  | int i => exact ⟨_, made (.int i)⟩
  | float x => exact ⟨_, made (.float x)⟩
  | string text => exact ⟨_, made (.string text)⟩
  | bytes b => exact ⟨_, made (.bytes b)⟩
  | time t => exact ⟨_, made (.time t)⟩

theorem crossing_sequence (anatomy : s.anatomy ref = .sequence items)
    (has : s.Has (.object ref)) (each : ∀ item ∈ items, ∃ h, s.Crossing item h) :
    ∃ h, s.Crossing (.object ref) h := by
  obtain ⟨trees, each⟩ := exists_forall₂ each
  obtain ⟨length, crossing⟩ := List.forall₂_iff_zip.1 each
  refine ⟨.list trees, .sequence anatomy length fun _ isPair => (crossing isPair).unfolds,
    fun t => .list fun tree isTree => ?_, ?_⟩
  · obtain ⟨item, isPair⟩ := exists_pair_of_mem length.symm isTree
    exact (crossing (mem_zip_swap isPair)).rooted t
  by_cases scalars : s.ScalarKeys (.object ref)
  · have plain := (scalarKeys_sequence anatomy).1 scalars
    have restores : List.Forall₂ (fun (tree : HostValue) item => tree.Restores (s.Returned item))
        trees items :=
      List.forall₂_iff_zip.2 ⟨length.symm, fun isPair =>
        (crossing (mem_zip_swap isPair)).restores (plain _ (List.of_mem_zip isPair).2)⟩
    refine .inl ⟨scalars, (restores_list restores).imp ?_⟩
    rintro u w ⟨q, others, rfl, cell, parts⟩
    refine ⟨fun keeps => ?_, fun _ _ _ _ => ⟨q, others, rfl, cell⟩⟩
    obtain ⟨length, each⟩ := List.forall₂_iff_zip.1 parts
    exact .sequence (sequence_of_cell (keeps ref (has_object.1 has)) anatomy) cell length
      fun _ isPair => (each isPair).1 keeps
  · refine .inr ⟨scalars, refused_list (fun tree isTree => ?_) fun all => ?_⟩
    · obtain ⟨item, isPair⟩ := exists_pair_of_mem length.symm isTree
      exact (crossing (mem_zip_swap isPair)).either
    · refine scalars ((scalarKeys_sequence anatomy).2 fun item isItem => ?_)
      obtain ⟨tree, isPair⟩ := exists_pair_of_mem length isItem
      by_contra nested
      obtain ⟨Q, restores⟩ := all tree (List.of_mem_zip isPair).2
      exact ((crossing isPair).refused nested).not_restores restores

/-- Lists in step keep what holds of pairs. -/
theorem pairwise_of_forall₂ {α β : Type} {R : α → β → Prop} {S : α → α → Prop} {T : β → β → Prop}
    {as : List α} {bs : List β} (each : List.Forall₂ R as bs) (pairs : as.Pairwise S)
    (transfer : ∀ a b a' b', R a b → R a' b' → S a a' → T b b') : bs.Pairwise T := by
  induction each with
  | nil => exact .nil
  | @cons a b as bs first rest ih =>
    obtain ⟨here, pairs⟩ := List.pairwise_cons.1 pairs
    refine List.pairwise_cons.2 ⟨fun b' isRest => ?_, ih pairs⟩
    obtain ⟨length, each⟩ := List.forall₂_iff_zip.1 rest
    obtain ⟨a', isPair⟩ := exists_pair_of_mem length.symm isRest
    have isPair := mem_zip_swap isPair
    exact transfer a b a' b' first (each isPair) (here a' (List.of_mem_zip isPair).1)

theorem rooted_ofPairs {entries : List (HostValue × HostValue)}
    (keys : ∀ entry ∈ entries, entry.1.Rooted s) (values : ∀ entry ∈ entries, entry.2.Rooted s) :
    (HostValue.ofPairs entries).Rooted s := by
  rcases ofPairs_cases entries with ⟨named, rfl, byName⟩ | ⟨-, byKey⟩
  · rw [byName]
    exact .map fun entry isEntry => values _ (List.mem_map_of_mem (mem_ofList isEntry))
  · rw [byKey]
    exact .pairs keys values

/-- A key crosses as a scalar, or it comes back as a list. -/
theorem Crossing.key {h : HostValue} (crossing : s.Crossing v h) (scalars : s.ScalarKeys v)
    (key : v.identity? = none ∨ ∃ ref items, v = .object ref ∧ s.cell ref = .tuple items) :
    v.identity? = none ∧ h.scalar? = some v ∨ v.identity? ≠ none ∧ h.BecomesList := by
  rcases key with scalar | ⟨ref, items, rfl, cell⟩
  · exact .inl ⟨scalar, scalar?_of_unfolds scalar crossing.unfolds⟩
  · exact .inr ⟨nofun, (crossing.restores scalars).imp fun u w returned =>
      returned.2 ref items rfl (by rw [Store.anatomy, cell])⟩

/-- What an entry departs as. -/
structure EntryCrossing (s : Store) (entry : Value × Value) (tree : HostValue × HostValue) :
    Prop where
  key : s.Crossing entry.1 tree.1
  value : s.Crossing entry.2 tree.2
  kind : entry.1.identity? = none ∧ tree.1.scalar? = some entry.1 ∨
    entry.1.identity? ≠ none ∧ tree.1.BecomesList

namespace EntryCrossing

variable {entry : Value × Value} {tree : HostValue × HostValue}

theorem enters (crossing : s.EntryCrossing entry tree) (scalar : entry.1.identity? = none)
    (scalars : s.ScalarKeys entry.2) : Enters tree := by
  rcases crossing.kind with ⟨-, same⟩ | ⟨isObject, -⟩
  · exact ⟨⟨_, same⟩, _, crossing.value.restores scalars⟩
  · exact absurd scalar isObject

theorem refused (crossing : s.EntryCrossing entry tree)
    (nested : ¬ (entry.1.identity? = none ∧ s.ScalarKeys entry.2)) : EntryRefused tree := by
  rcases crossing.kind with ⟨scalar, same⟩ | ⟨-, becomes⟩
  · exact .inr ⟨⟨_, same⟩, crossing.value.refused fun scalars => nested ⟨scalar, scalars⟩⟩
  · exact .inl ⟨becomes, crossing.value.either⟩

end EntryCrossing

section Dict

variable {entries : List (Value × Value)} {pairs : List (HostValue × HostValue)} {frozen : Bool}
  (cell : s.cell ref = .dict entries frozen)
  (apart : (entries.map Prod.fst).Pairwise fun v w => s.EitherSteady v w → s.Apart v w)
  (each : List.Forall₂ s.EntryCrossing entries pairs)
include cell apart each

theorem restores_dict (has : s.Has (.object ref)) (scalars : s.ScalarKeys (.object ref)) :
    (HostValue.ofPairs pairs).Restores (s.Returned (.object ref)) := by
  have plain := (scalarKeys_dict cell).1 scalars
  have keys : ∀ key ∈ entries.map Prod.fst, key.identity? = none := fun key isKey => by
    obtain ⟨entry, isEntry, rfl⟩ := List.mem_map.1 isKey
    exact (plain entry isEntry).1
  obtain ⟨length, crossing⟩ := List.forall₂_iff_zip.1 each
  have restores : List.Forall₂ (fun (tree : HostValue × HostValue) (entry : Value × Value) =>
      tree.1.scalar? = some entry.1 ∧ tree.2.Restores (s.Returned entry.2)) pairs entries := by
    refine List.forall₂_iff_zip.2 ⟨length.symm, fun {tree entry} isPair => ?_⟩
    have crossing := crossing (mem_zip_swap isPair)
    obtain ⟨scalar, scalars⟩ := plain entry (List.of_mem_zip isPair).2
    exact ⟨scalar?_of_unfolds scalar crossing.key.unfolds, crossing.value.restores scalars⟩
  have unequal : (entries.map Prod.fst).Pairwise fun a b => scalarEqual b a = false := by
    refine apart.imp_of_mem fun {a b} isKey isKey' apart => ?_
    rw [← s.equals_of_scalar (keys b isKey')]
    exact (apart (.inl (.scalar (keys a isKey)))).2
  refine (restores_ofPairs restores unequal).imp ?_
  rintro u w ⟨q, others, sorted, rfl, cell', perm, parts⟩
  refine ⟨fun kept => ?_, fun r items same anatomy => ?_⟩
  · obtain ⟨length, each⟩ := List.forall₂_iff_zip.1 parts
    have sameKeys : entries.map Prod.fst = sorted.map Prod.fst :=
      map_eq_of_forall₂ parts fun _ _ both => both.1
    exact .dict ((kept ref (has_object.1 has)).trans cell) cell' perm keys sameKeys
      fun _ isPair => (each isPair).2.1 kept
  · cases same
    exact absurd cell ((parts_of_sequence anatomy).2 _ _)

theorem refused_dict (nested : ¬ s.ScalarKeys (.object ref)) :
    (HostValue.ofPairs pairs).Refused listFault := by
  obtain ⟨length, crossing⟩ := List.forall₂_iff_zip.1 each
  refine refused_ofPairs (fun tree isTree => ?_) (fun all => nested ?_) ?_
  · obtain ⟨entry, isPair⟩ := exists_pair_of_mem length.symm isTree
    have crossing := crossing (mem_zip_swap isPair)
    by_cases plain : entry.1.identity? = none ∧ s.ScalarKeys entry.2
    · exact .inl (crossing.enters plain.1 plain.2)
    · exact .inr (crossing.refused plain)
  · refine (scalarKeys_dict cell).2 fun entry isEntry => ?_
    obtain ⟨tree, isPair⟩ := exists_pair_of_mem length isEntry
    by_contra plain
    exact ((crossing isPair).refused plain).not_enters (all tree (List.of_mem_zip isPair).2)
  · -- Keys that are scalars are apart, and other keys are no scalars on the host side, either.
    refine pairwise_of_forall₂ each (List.pairwise_map.1 apart) ?_
    intro entry tree entry' tree' crossing crossing' apart
    rcases crossing.kind with ⟨scalar, same⟩ | ⟨-, becomes⟩
    · rcases crossing'.kind with ⟨scalar', same'⟩ | ⟨-, becomes⟩
      · rw [sameKey, same, same']
        exact (s.equals_of_scalar scalar' entry.1).symm.trans (apart (.inl (.scalar scalar))).2
      · rw [sameKey, becomes.scalar?]
    · rw [sameKey, becomes.scalar?]
      cases tree'.1.scalar? <;> rfl

end Dict

theorem crossing_dict {entries : List (Value × Value)} {frozen : Bool} (keeps : s.Lawkeeping)
    (cell : s.cell ref = .dict entries frozen) (has : s.Has (.object ref))
    (data : ∀ entry ∈ entries, s.Data entry.1) (keys : ∀ entry ∈ entries, ∃ h, s.Crossing entry.1 h)
    (values : ∀ entry ∈ entries, ∃ h, s.Crossing entry.2 h) :
    ∃ h, s.Crossing (.object ref) h := by
  have keys_eq : (s.cell ref).keys = entries.map Prod.fst := by rw [cell]; rfl
  have apart : (entries.map Prod.fst).Pairwise fun v w => s.EitherSteady v w → s.Apart v w :=
    keys_eq ▸ keeps.apart ref
  have trees : ∀ entry ∈ entries, ∃ tree, s.EntryCrossing entry tree := by
    intro entry isEntry
    obtain ⟨hk, key⟩ := keys entry isEntry
    obtain ⟨hv, value⟩ := values entry isEntry
    have isKey : entry.1 ∈ (s.cell ref).keys := keys_eq ▸ List.mem_map_of_mem isEntry
    obtain ⟨scalars, kind⟩ := (data entry isEntry).key keeps.aged keeps.closed
      (keeps.closed ref _ (Cell.held_of_keys isKey)) (keeps.hashable ref _ isKey)
    exact ⟨(hk, hv), key, value, key.key scalars kind⟩
  obtain ⟨pairs, each⟩ := exists_forall₂ trees
  obtain ⟨length, crossing⟩ := List.forall₂_iff_zip.1 each
  have crossings : ∀ pair ∈ pairs, ∃ entry, s.EntryCrossing entry pair := by
    intro pair isPair
    obtain ⟨entry, isPair⟩ := exists_pair_of_mem length.symm isPair
    exact ⟨entry, crossing (mem_zip_swap isPair)⟩
  refine ⟨.ofPairs pairs, .ofPairs (by rw [Store.anatomy, cell])
    (each.imp fun _ _ crossing => ⟨crossing.key.unfolds, crossing.value.unfolds⟩), fun t => ?_, ?_⟩
  · refine rooted_ofPairs (fun pair isPair => ?_) fun pair isPair => ?_
    all_goals obtain ⟨_, crossing⟩ := crossings pair isPair
    · exact crossing.key.rooted t
    · exact crossing.value.rooted t
  · by_cases scalars : s.ScalarKeys (.object ref)
    · exact .inl ⟨scalars, restores_dict cell apart each has scalars⟩
    · exact .inr ⟨scalars, refused_dict cell apart each scalars⟩

/-- Data departs, and it comes back or is refused for a key. -/
theorem Data.crossing (keeps : s.Lawkeeping) (has : s.Has v) (data : s.Data v) :
    ∃ h, s.Crossing v h := by
  induction data with
  | scalar scalar => exact crossing_scalar scalar
  | @sequence ref items anatomy _ ih =>
    refine crossing_sequence anatomy has fun item isItem => ih item isItem ?_
    exact keeps.closed ref item (Cell.held_of_parts ((parts_of_sequence anatomy).1 ▸ isItem))
  | @dict ref entries frozen cell keys _ ihKeys ihValues =>
    have held {part : Value} {entry : Value × Value} (isEntry : entry ∈ entries)
        (same : part = entry.1 ∨ part = entry.2) : s.Has part := by
      refine keeps.closed ref part (Cell.held_of_parts ?_)
      rw [cell]
      exact mem_entryParts.2 ⟨entry, isEntry, same⟩
    exact crossing_dict keeps cell has keys
      (fun entry isEntry => ihKeys entry isEntry (held isEntry (.inl rfl)))
      fun entry isEntry => ihValues entry isEntry (held isEntry (.inr rfl))

/-- Data departs always. It comes back exactly when no tuple is a key in it, and then as its listing,
which equals every other listing of it; or else it is refused, in every store, since a list is no
key. -/
theorem Reachable.data_returns (reachable : s.Reachable) (has : s.Has v) (data : s.Data v) :
    ∃ h, s.depart v = .ok h ∧
      (s.ScalarKeys v → ∃ w u, h.arrive.runOn s = (.ok w, u) ∧ u.Listing v w ∧
        ∀ x, u.Listing v x → u.equals w x = true) ∧
      (¬ s.ScalarKeys v → ∀ t, ∃ u, h.arrive.runOn t = (.error (.unhashable "list"), u)) := by
  obtain ⟨h, crossing⟩ := data.crossing reachable.lawkeeping has
  refine ⟨h, crossing.unfolds.depart, fun scalars => ?_, crossing.refused⟩
  obtain ⟨w, u, arrived, built⟩ := crossing.restores scalars s
  have listing : u.Listing v w :=
    (built.added u fun _ _ _ => rfl).1 fun ref inside => built.kept ref inside not_false
  have later : u.Reachable := by
    have ran : ((Action.arrive h).run.runOn s).2 = u := by
      rw [Action.run, Op.runOn_bind_of_ok arrived]
      rfl
    refine reachable.later (ran ▸ .act (.arrive h) ⟨nofun, fun host same => ?_⟩)
    cases same
    exact crossing.rooted s
  exact ⟨w, u, arrived, listing, fun x other =>
    (listing.matches other).equals later.lawkeeping listing.has other.has⟩

/-- A tuple as a key, as an element of a set, and as a value. -/
def paired : Store := empty.after
  [.newTuple [.int 1], .newDict [(.object ⟨0⟩, .int 2)], .newSet [.object ⟨0⟩, .string "a"],
    .newDict [(.string "b", .object ⟨2⟩), (.int 1, .object ⟨0⟩)]]

theorem reachable_paired : paired.Reachable :=
  reachable_empty.after ⟨⟨by decide, nofun⟩, ⟨by decide, nofun⟩, ⟨by decide, nofun⟩,
    ⟨by decide, nofun⟩, trivial⟩

theorem anatomy_tuple : paired.anatomy ⟨0⟩ = .sequence [.int 1] := rfl

theorem anatomy_set : paired.anatomy ⟨2⟩ = .sequence [.object ⟨0⟩, .string "a"] := rfl

theorem cell_paired : paired.cell ⟨3⟩ =
  .dict [(.string "b", .object ⟨2⟩), (.int 1, .object ⟨0⟩)] false := rfl

theorem data_tuple : paired.Data (.object ⟨0⟩) :=
  .sequence anatomy_tuple (List.forall_mem_singleton.2 (.scalar rfl))

theorem data_paired : paired.Data (.object ⟨3⟩) := by
  have set : paired.Data (.object ⟨2⟩) := .sequence anatomy_set
    (List.forall_mem_cons.2 ⟨data_tuple, List.forall_mem_singleton.2 (.scalar rfl)⟩)
  refine .dict cell_paired ?_ ?_
  · exact List.forall_mem_cons.2 ⟨.scalar rfl, List.forall_mem_singleton.2 (.scalar rfl)⟩
  · exact List.forall_mem_cons.2 ⟨set, List.forall_mem_singleton.2 data_tuple⟩

theorem scalarKeys_paired : paired.ScalarKeys (.object ⟨3⟩) := by
  have tuple : paired.ScalarKeys (.object ⟨0⟩) := (scalarKeys_sequence anatomy_tuple).2
    (List.forall_mem_singleton.2 (scalarKeys_of_scalar rfl))
  have set : paired.ScalarKeys (.object ⟨2⟩) := (scalarKeys_sequence anatomy_set).2
    (List.forall_mem_cons.2 ⟨tuple, List.forall_mem_singleton.2 (scalarKeys_of_scalar rfl)⟩)
  exact (scalarKeys_dict cell_paired).2
    (List.forall_mem_cons.2 ⟨⟨rfl, set⟩, List.forall_mem_singleton.2 ⟨rfl, tuple⟩⟩)

/-- The dict comes back with lists for its tuples and its set. -/
theorem data_returns_paired : paired.Reachable ∧ paired.Data (.object ⟨3⟩) ∧
    paired.ScalarKeys (.object ⟨3⟩) ∧ ∃ h w u, paired.depart (.object ⟨3⟩) = .ok h ∧
      h.arrive.runOn paired = (.ok w, u) ∧ u.Listing (.object ⟨3⟩) w := by
  obtain ⟨h, departed, returns, -⟩ :=
    reachable_paired.data_returns (v := .object ⟨3⟩) (by decide) data_paired
  obtain ⟨w, u, arrived, listing, -⟩ := returns scalarKeys_paired
  exact ⟨reachable_paired, data_paired, scalarKeys_paired, h, w, u, departed, arrived, listing⟩

/-- A dict whose key is a tuple departs, but it does not come back. -/
theorem tuple_key_refused : paired.Reachable ∧ paired.Data (.object ⟨1⟩) ∧
    paired.checkHashable (.object ⟨0⟩) = .ok () ∧
    paired.depart (.object ⟨1⟩) = .ok (.pairs [(.list [.int 1], .int 2)]) ∧
    ((HostValue.pairs [(.list [.int 1], .int 2)]).arrive.runOn paired).1 =
      .error (.unhashable "list") := by
  have cell : paired.cell ⟨1⟩ = .dict [(.object ⟨0⟩, .int 2)] false := rfl
  refine ⟨reachable_paired, .dict cell ?_ ?_, rfl, rfl, rfl⟩
  · exact List.forall_mem_singleton.2 data_tuple
  · exact List.forall_mem_singleton.2 (.scalar rfl)

end Store
end Interchange
