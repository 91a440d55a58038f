import Interchange.Crossing.Arrival
import Interchange.Proofs.Crossing.NormalForm
import Interchange.Proofs.Crossing.Unfolding

/-!
# There and back

A host value that arrives departs again as its normal form (`depart_arrive`). An arrival only adds
cells, and writes to none but the dict that it is filling; so what it has built unfolds to the
normal form in every store that agrees with it on the cells it added (`Built`), and each part can
be followed on its own. Keys that a dict takes are scalars, which every store compares alike.
-/

namespace Interchange

namespace Store

/-- Two stores have the same cells from one index up to another. -/
def AgreeFrom (low high : Nat) (s t : Store) : Prop :=
  ∀ ref : Ref, low ≤ ref.index → ref.index < high → s.cell ref = t.cell ref

/-- A store has grown and kept its cells but those that may have changed, and what was added to it
has a property in every store that has the added cells. -/
structure Built (changed : Ref → Prop) (s t : Store) (P : Store → Prop) : Prop where
  size_le : s.size ≤ t.size
  kept : ∀ ref, ref.index < s.size → ¬ changed ref → t.cell ref = s.cell ref
  added : ∀ u, AgreeFrom s.size t.size t u → P u

/-- A store has the cells of another, whatever it has beside them. -/
def Keeps (s u : Store) : Prop := ∀ ref : Ref, ref.index < s.size → u.cell ref = s.cell ref

variable {changed : Ref → Prop} {s t m : Store} {P Q : Store → Prop}

theorem Built.refl (h : ∀ u, P u) : Built changed s s P where
  size_le := Nat.le_refl _
  kept := fun _ _ _ => rfl
  added := fun u _ => h u

/-- What is built first stays as it is while more is built. -/
theorem Built.trans (first : Built changed s m P) (next : Built changed m t Q)
    (old : ∀ ref, changed ref → ref.index < s.size) :
    Built changed s t fun u => P u ∧ Q u where
  size_le := Nat.le_trans first.size_le next.size_le
  kept := fun ref inside unchanged => by
    rw [next.kept ref (Nat.lt_of_lt_of_le inside first.size_le) unchanged,
      first.kept ref inside unchanged]
  added := fun u agree => by
    refine ⟨first.added u fun ref low high => ?_, next.added u fun ref low high => ?_⟩
    · rw [← agree ref low (Nat.lt_of_lt_of_le high next.size_le)]
      exact (next.kept ref high fun c => absurd (old ref c) (Nat.not_lt.2 low)).symm
    · exact agree ref (Nat.le_trans first.size_le low) high

theorem Built.imp (h : Built changed s t P) (weaker : ∀ u, P u → Q u) : Built changed s t Q where
  size_le := h.size_le
  kept := h.kept
  added := fun u agree => weaker u (h.added u agree)

/-- Replacing an old cell does not touch what was added. -/
theorem Built.write (h : Built (fun _ => False) s t P) {ref : Ref} (old : ref.index < s.size)
    (cell : Cell) : Built (· = ref) s (t.write ref cell) P where
  size_le := by
    rw [size_write]
    exact h.size_le
  kept := fun other inside unchanged => by
    rw [cell_write_other _ _ (Ne.symm unchanged), h.kept other inside not_false]
  added := fun u agree => h.added u fun other low high => by
    have differ : ref ≠ other := by
      rintro rfl
      exact absurd old (Nat.not_lt.2 low)
    rw [← agree other low (by rwa [size_write]), cell_write_other _ _ differ]

/-- A new cell is there beside what was built before. -/
theorem Built.alloc (h : Built (fun _ => False) s t P) (cell : Cell) :
    Built (fun _ => False) s (t.alloc cell).2 fun u => P u ∧ u.cell (t.alloc cell).1 = cell where
  size_le := by
    rw [size_alloc]
    exact Nat.le_succ_of_le h.size_le
  kept := fun ref inside _ => by
    rw [cell_alloc_other _ _ (Nat.lt_of_lt_of_le inside h.size_le), h.kept ref inside not_false]
  added := fun u agree => by
    rw [size_alloc] at agree
    refine ⟨h.added u fun ref low high => ?_, ?_⟩
    · rw [← agree ref low (Nat.lt_succ_of_lt high), cell_alloc_other _ _ high]
    · rw [← agree (t.alloc cell).1 h.size_le (Nat.lt_succ_self _), cell_alloc_self]

/-- What fills a new dict is added together with the dict. -/
theorem Built.fill {entries filled : List (Value × Value)}
    (h : Built (· = (s.alloc (.dict entries false)).1) (s.alloc (.dict entries false)).2 t P)
    (cell : t.cell (s.alloc (.dict entries false)).1 = .dict filled false) :
    Built (fun _ => False) s t fun u =>
      P u ∧ u.cell (s.alloc (.dict entries false)).1 = .dict filled false where
  size_le := by
    have := h.size_le
    rw [size_alloc] at this
    omega
  kept := fun ref inside _ => by
    have differ : ref ≠ (s.alloc (.dict entries false)).1 := by
      rintro rfl
      exact absurd inside (Nat.lt_irrefl _)
    rw [h.kept ref (by rw [size_alloc]; omega) differ, cell_alloc_other _ _ inside]
  added := fun u agree => by
    have grown := h.size_le
    rw [size_alloc] at grown
    refine ⟨h.added u fun ref low high => agree ref ?_ high, ?_⟩
    · rw [size_alloc] at low
      omega
    · rw [← agree (s.alloc _).1 (Nat.le_refl _) grown, cell]

/-- A value that is no cell equals what its scalar equals. -/
theorem equals_of_scalar {v : Value} (scalar : v.identity? = none) (w : Value) :
    s.equals v w = scalarEqual v w := by
  have same : s.equal? v w = some (scalarEqual v w) := by
    cases v <;> first | (cases scalar; done) | (unfold equal? equalWithin; rfl)
  rw [equals, same]
  cases scalarEqual v w <;> rfl

/-- A scalar key is entered in the same way in every store. -/
theorem putEntry_of_scalar {key : Value} (scalar : key.identity? = none) (value : Value)
    (entries : List (Value × Value)) :
    s.putEntry key value entries = enter scalarEqual key value entries := by
  induction entries with
  | nil => rfl
  | cons entry rest ih => rw [putEntry, enter, equals_of_scalar scalar, ih]

end Store

/-- Writing under a key that passes. -/
theorem Dict.insert_ok {dict : Ref} {key value : Value} {s t : Store}
    {entries : List (Value × Value)} (cell : s.cell dict = .dict entries false)
    (h : (Dict.insert dict key value).runOn s = (.ok (), t)) :
    s.checkHashable key = .ok () ∧ t = s.write dict (.dict (s.putEntry key value entries) false) := by
  rw [runOn_insert, cell] at h
  cases hashable : s.checkHashable key with
  | error fault =>
    rw [hashable] at h
    cases h
  | ok _ =>
    rw [hashable] at h
    dsimp only at h
    split at h
    · obtain ⟨-, rfl⟩ := Prod.mk.inj h
      exact ⟨rfl, rfl⟩
    · cases h

namespace HostValue

open Store

/-- A value stands for a host value: it unfolds to the normal form, and it is hashable only as a
scalar. -/
def Stands (h : HostValue) (v : Value) (store : Store) : Prop :=
  store.Unfolds v h.norm ∧ (store.checkHashable v = .ok () → v.identity? = none)

/-- What an arrival of the host value builds stands for it. -/
def Faithful (h : HostValue) : Prop :=
  ∀ ⦃s v t⦄, h.arrive.runOn s = (.ok v, t) → Built (fun _ => False) s t (h.Stands v)

variable {s t : Store} {v : Value}

theorem arriveItems_stand {items : List HostValue} (each : ∀ item ∈ items, item.Faithful)
    {values : List Value} (h : (arriveItems items).runOn s = (.ok values, t)) :
    Built (fun _ => False) s t fun u =>
      List.Forall₂ (fun v (item : HostValue) => u.Unfolds v item.norm) values items := by
  induction items generalizing s values with
  | nil =>
    cases h
    exact .refl fun _ => .nil
  | cons item rest ih =>
    obtain ⟨v, m, first, h⟩ := Op.steps_of_bind h
    obtain ⟨others, m', next, h⟩ := Op.steps_of_bind h
    cases h
    have here := each item List.mem_cons_self first
    have there := ih (fun other isRest => each other (List.mem_cons_of_mem _ isRest)) next
    exact (here.trans there fun _ => False.elim).imp fun u both => .cons both.1.1 both.2

/-- An entry of a dict stands for an entry of a host value: a scalar key and a value. -/
def EntryStands (store : Store) (entry : Value × Value) (pair : HostValue × HostValue) : Prop :=
  (entry.1.identity? = none ∧ store.Unfolds entry.1 pair.1.norm) ∧
    store.Unfolds entry.2 pair.2.norm

theorem arrivePairs_stand {dict : Ref} {pairs : List (HostValue × HostValue)}
    (keys : ∀ pair ∈ pairs, pair.1.Faithful) (values : ∀ pair ∈ pairs, pair.2.Faithful)
    {kept : List (Value × Value)} (inside : dict.index < s.size)
    (cell : s.cell dict = .dict kept false)
    (h : (arrivePairs dict pairs).runOn s = (.ok (), t)) :
    ∃ added, t.cell dict = .dict (enterAll scalarEqual kept added) false ∧
      Built (· = dict) s t fun u => List.Forall₂ (EntryStands u) added pairs := by
  induction pairs generalizing s kept with
  | nil =>
    cases h
    exact ⟨[], cell, .refl fun _ => .nil⟩
  | cons pair rest ih =>
    obtain ⟨key, item⟩ := pair
    obtain ⟨k, m, keyArrived, h⟩ := Op.steps_of_bind h
    obtain ⟨v, m', itemArrived, h⟩ := Op.steps_of_bind h
    obtain ⟨_, m'', inserted, h⟩ := Op.steps_of_bind h
    have atKey := keys _ List.mem_cons_self keyArrived
    have atItem := values _ List.mem_cons_self itemArrived
    have both := atKey.trans atItem fun _ => False.elim
    have here : m'.cell dict = .dict kept false := by
      rw [both.kept dict inside not_false, cell]
    obtain ⟨hashable, rfl⟩ := Dict.insert_ok here inserted
    have scalar : k.identity? = none :=
      (both.added m' fun _ _ _ => rfl).1.2 hashable
    have within : dict.index < m'.size := Nat.lt_of_lt_of_le inside both.size_le
    rw [putEntry_of_scalar scalar] at h
    obtain ⟨added, filled, there⟩ := ih (fun p isRest => keys p (List.mem_cons_of_mem _ isRest))
      (fun p isRest => values p (List.mem_cons_of_mem _ isRest))
      (by rw [size_write]; exact within) (cell_write_self m' _ within) h
    refine ⟨(k, v) :: added, filled, ?_⟩
    have entered := both.write inside (.dict (enter scalarEqual k v kept) false)
    refine (entered.trans there fun _ same => same ▸ inside).imp fun u ⟨atEntry, atRest⟩ => ?_
    exact .cons ⟨⟨scalar, atEntry.1.1⟩, atEntry.2.1⟩ atRest

/-- A scalar is the tree of the value it is. -/
theorem scalar?_of_unfolds {tree : HostValue} (scalar : v.identity? = none)
    (h : s.Unfolds v tree) : tree.scalar? = some v := by
  cases h with
  | int i => exact scalar?_ofInt i
  | nothing | bool | float | string | bytes | time => rfl
  | sequence | byName | byKey | named | handle => cases scalar

/-- A dict that was filled unfolds to what its entries stand for. -/
theorem unfolds_of_filled {dict : Ref} {added : List (Value × Value)}
    {pairs : List (HostValue × HostValue)}
    (filled : s.cell dict = .dict (enterAll scalarEqual [] added) false)
    (each : List.Forall₂ (EntryStands s) added pairs) :
    s.Unfolds (.object dict) (norm (.pairs pairs)) := by
  have anatomy : s.anatomy dict = .keyed (collapse scalarEqual added) := by
    rw [Store.anatomy, filled, enterAll_nil]
  have agree (a b : Value) (a' b' : HostValue) (ha : a.identity? = none ∧ s.Unfolds a a')
      (hb : b.identity? = none ∧ s.Unfolds b b') : scalarEqual a b = sameKey a' b' := by
    rw [sameKey, scalar?_of_unfolds ha.1 ha.2, scalar?_of_unfolds hb.1 hb.2]
  have trees : List.Forall₂ (fun e o => (e.1.identity? = none ∧ s.Unfolds e.1 o.1) ∧
      s.Unfolds e.2 o.2) added (normPairs pairs) := by
    rw [normPairs_eq]
    exact List.forall₂_map_right_iff.2 each
  have collapsed := forall₂_collapse agree trees
  rw [norm]
  exact .ofPairs anatomy (collapsed.imp fun _ _ h => ⟨h.1.2, h.2⟩)

/-- A map from texts arrives as its entries do under keys of any kind. -/
theorem arriveEntries_eq (dict : Ref) (entries : List (String × HostValue)) :
    arriveEntries dict entries =
      arrivePairs dict (entries.map fun entry => (.string entry.1, entry.2)) := by
  induction entries with
  | nil => rfl
  | cons entry rest ih =>
    rw [arriveEntries, List.map_cons, arrivePairs, ih, arrive]
    rfl

theorem faithful_of_scalar {h : HostValue} (same : h.arrive = pure v)
    (scalar : v.identity? = none) (unfolds : ∀ u : Store, u.Unfolds v h.norm) : h.Faithful := by
  intro s w t arrived
  rw [same] at arrived
  cases arrived
  exact .refl fun u => ⟨unfolds u, fun _ => scalar⟩

theorem faithful_list {items : List HostValue} (each : ∀ item ∈ items, item.Faithful) :
    (list items).Faithful := by
  intro s v t arrived
  obtain ⟨values, m, built, made⟩ := Op.steps_of_bind arrived
  obtain ⟨rfl, rfl⟩ := Op.new_ok made
  refine ((arriveItems_stand each built).alloc (.list values false)).imp fun u ⟨parts, cell⟩ => ?_
  refine ⟨?_, fun hashable => ?_⟩
  · obtain ⟨length, trees⟩ := List.forall₂_iff_zip.1 (List.forall₂_map_right_iff.2 parts)
    rw [norm, normItems_eq]
    exact .sequence (by rw [anatomy, cell]) length fun pair paired => trees paired
  · rw [checkHashable, checkHashableWithin, cell] at hashable
    cases hashable

theorem faithful_pairs {entries : List (HostValue × HostValue)}
    (keys : ∀ pair ∈ entries, pair.1.Faithful) (values : ∀ pair ∈ entries, pair.2.Faithful) :
    (pairs entries).Faithful := by
  intro s v t arrived
  obtain ⟨dict, m, made, arrived⟩ := Op.steps_of_bind arrived
  obtain ⟨rfl, rfl⟩ := Op.alloc_ok made
  obtain ⟨_, m, filled, arrived⟩ := Op.steps_of_bind arrived
  cases arrived
  obtain ⟨added, cell, built⟩ := arrivePairs_stand keys values
    (by rw [size_alloc]; exact Nat.lt_succ_self _) (cell_alloc_self _ _) filled
  refine (built.fill cell).imp fun u ⟨each, here⟩ => ⟨unfolds_of_filled here each, fun hashable => ?_⟩
  rw [checkHashable, checkHashableWithin, here] at hashable
  cases hashable

/-- A map whose names ascend has the normal form of its entries. -/
theorem norm_map {entries : List (String × HostValue)}
    (ascending : (entries.map Prod.fst).Pairwise (· < ·)) :
    norm (map entries) = norm (pairs (entries.map fun entry => (.string entry.1, entry.2))) := by
  have trees : normPairs (entries.map fun entry => (.string entry.1, entry.2)) =
      (normEntries entries).map fun entry => (.string entry.1, entry.2) := by
    rw [normPairs_eq, normEntries_eq, List.map_map, List.map_map]
    rfl
  have names : ((normEntries entries).map Prod.fst).Pairwise (· < ·) := by
    rw [normEntries_eq, List.map_map]
    exact ascending
  have distinct : ((normEntries entries).map fun entry => (string entry.1, entry.2)).Pairwise
      fun a b => sameKey b.1 a.1 = false := by
    refine List.pairwise_map.2 ((List.pairwise_map.1 names).imp fun {a b} below => ?_)
    have differ : b.1 ≠ a.1 := fun same => String.lt_irrefl _ (same ▸ below)
    simpa [sameKey, scalar?, scalarEqual] using differ
  rw [norm, norm, trees, collapse_of_distinct distinct, ofPairs_texts, ofEntries,
    TextMap.ofList_of_ascending names]

theorem faithful_map {entries : List (String × HostValue)}
    (ascending : (entries.map Prod.fst).Pairwise (· < ·))
    (each : ∀ entry ∈ entries, entry.2.Faithful) : (map entries).Faithful := by
  have asPairs : (pairs (entries.map fun entry => (.string entry.1, entry.2))).Faithful := by
    refine faithful_pairs ?_ ?_
    · intro pair isPair
      obtain ⟨entry, -, rfl⟩ := List.mem_map.1 isPair
      exact faithful_of_scalar rfl rfl fun _ => .string entry.1
    · intro pair isPair
      obtain ⟨entry, isEntry, rfl⟩ := List.mem_map.1 isPair
      exact each entry isEntry
  intro s v t arrived
  simp only [arrive, arriveEntries_eq] at arrived
  unfold Stands
  rw [norm_map ascending]
  exact asPairs arrived

/-- Every portable host value arrives as something that stands for it. -/
theorem Portable.faithful {h : HostValue} (portable : h.Portable) : h.Faithful := by
  induction portable with
  | null => exact faithful_of_scalar rfl rfl fun _ => .nothing
  | bool b => exact faithful_of_scalar rfl rfl fun _ => .bool b
  | @int i fits =>
    refine faithful_of_scalar (v := .int i) rfl rfl fun u => ?_
    have narrow : ofInt i = .int i := if_pos fits
    rw [norm, ← narrow]
    exact .int i
  | wide i => exact faithful_of_scalar rfl rfl fun _ => .int i
  | float x => exact faithful_of_scalar rfl rfl fun _ => .float x
  | string s => exact faithful_of_scalar rfl rfl fun _ => .string s
  | bytes b => exact faithful_of_scalar rfl rfl fun _ => .bytes b
  | time t => exact faithful_of_scalar rfl rfl fun _ => .time t
  | list _ ih => exact faithful_list ih
  | map ascending _ ih => exact faithful_map ascending ih
  | pairs _ _ ihKeys ihValues => exact faithful_pairs ihKeys ihValues
  | @native handle refers plain proxied =>
    intro s v t arrived
    have made : (Op.new (.proxy handle)).runOn s = (.ok v, t) := by
      simpa [arrive, Op.arriveNative, refers, plain, proxied] using arrived
    obtain ⟨rfl, rfl⟩ := Op.new_ok made
    refine ((Built.refl fun _ => trivial).alloc (.proxy handle)).imp fun u ⟨_, cell⟩ => ?_
    refine ⟨.handle (by rw [anatomy, cell]), fun hashable => ?_⟩
    rw [checkHashable, checkHashableWithin, cell] at hashable
    cases hashable

/-- **A host value that arrives departs as its normal form.** What is in normal form already comes
back as it was. A float comes back bit for bit, but for the payload of a NaN, which `Binary64` does
not tell. -/
theorem depart_arrive {h : HostValue} (portable : h.Portable)
    (arrived : h.arrive.runOn s = (.ok v, t)) :
    t.depart v = .ok h.norm ∧ (h.norm = h → t.depart v = .ok h) := by
  have back : t.depart v = .ok h.norm :=
    ((portable.faithful arrived).added t fun _ _ _ => rfl).1.depart
  exact ⟨back, fun normal => by rw [back, normal]⟩

def floatOne : Binary64 := .finite false ⟨0x3FF0000000000000, by decide⟩

def passing : Native := ⟨7, "Handle", false, true, none, false⟩

/-- Entries under the keys one as a float, five at full width and one as an integer. -/
def mixed : HostValue :=
  .pairs [(.float floatOne, .string "first"),
    (.wide 5, .list [.wide 0x10000000000000000, .map [("x", .native passing)]]),
    (.int 1, .native passing)]

theorem portable_mixed : mixed.Portable := by
  have handle : (native passing).Portable := .native rfl rfl rfl
  have inner : (list [.wide 0x10000000000000000, .map [("x", .native passing)]]).Portable := by
    refine .list fun item isItem => ?_
    simp only [List.mem_cons, List.not_mem_nil, or_false] at isItem
    rcases isItem with rfl | rfl
    · exact .wide _
    · exact .map (by simp) (by simpa using handle)
  refine .pairs (fun pair isPair => ?_) fun pair isPair => ?_
  all_goals
    simp only [List.mem_cons, List.not_mem_nil, or_false] at isPair
    rcases isPair with rfl | rfl | rfl
  · exact .float _
  · exact .wide _
  · exact .int rfl
  · exact .string _
  · exact inner
  · exact handle

theorem norm_mixed : norm mixed = .pairs [(.float floatOne, .native passing),
    (.int 5, .list [.wide 0x10000000000000000, .map [("x", .native passing)]])] := by
  have one : scalarEqual (.int 1) (.float floatOne) = true := by decide +kernel
  have five : scalarEqual (.int 5) (.float floatOne) = false := by decide +kernel
  have narrow : ofInt 5 = .int 5 := rfl
  have wide : ofInt 0x10000000000000000 = .wide 0x10000000000000000 := rfl
  simp [mixed, norm, normPairs, normItems, normEntries, narrow, wide, collapse, valuesUnder,
    without, sameKey, scalar?, one, five, ofPairs, textEntries?]

/-- The two ones are one key: the first one, with the last value. -/
theorem depart_mixed : mixed.Portable ∧ ∃ v t, mixed.arrive.runOn Store.empty = (.ok v, t) ∧
    t.depart v = .ok (.pairs [(.float floatOne, .native passing),
      (.int 5, .list [.wide 0x10000000000000000, .map [("x", .native passing)]])]) := by
  have answered : (mixed.arrive.runOn Store.empty).1 = .ok (.object ⟨0⟩) := by decide +kernel
  rcases arrived : mixed.arrive.runOn Store.empty with ⟨result, t⟩
  rw [arrived] at answered
  cases answered
  refine ⟨portable_mixed, _, t, rfl, ?_⟩
  rw [← norm_mixed]
  exact (depart_arrive portable_mixed arrived).1

end HostValue

end Interchange
