import Mathlib.Data.List.Dedup
import Mathlib.Data.List.Forall2
import Mathlib.Data.List.Induction
import Mathlib.Data.List.Perm.Basic
import Interchange.Crossing.Departure
import Interchange.Container.Dict

/-!
# Normal forms of host values

The dynamic side has one form of an integer and one kind of a dict. `HostValue.norm` is what is left
of a host value when these differences are gone: an integer that fits 64 bits is one of 64 bits, a
map from keys of any kind has one entry for each class of equal keys (`collapse`), and it is a map
from texts when all its keys are texts. `enterAll_nil` says that entering entries one after the
other comes to the same as collapsing them.
-/

namespace Interchange

/-- A list without repetitions is as long as another of the same elements exactly when that has no
repetitions, either. -/
theorem length_eq_iff_nodup {α : Type} [DecidableEq α] {as bs : List α} (distinct : as.Nodup)
    (same : ∀ a, a ∈ as ↔ a ∈ bs) : as.length = bs.length ↔ bs.Nodup := by
  have perm : as.Perm bs.dedup := (List.perm_ext_iff_of_nodup distinct (List.nodup_dedup bs)).2
    fun a => (same a).trans List.mem_dedup.symm
  rw [perm.length_eq, ← List.dedup_eq_self]
  exact ⟨(List.dedup_sublist bs).eq_of_length, congrArg List.length⟩

/-! ## Lists in step -/

theorem exists_right {α β : Type} {R : α → β → Prop} {as : List α} {bs : List β}
    (each : List.Forall₂ R as bs) {a : α} (h : a ∈ as) : ∃ b ∈ bs, R a b := by
  induction each with
  | nil => cases h
  | cons first _ ih =>
    rcases List.mem_cons.1 h with rfl | isRest
    · exact ⟨_, List.mem_cons_self, first⟩
    · obtain ⟨b, isOther, related⟩ := ih isRest
      exact ⟨b, List.mem_cons_of_mem _ isOther, related⟩

theorem exists_left {α β : Type} {R : α → β → Prop} {as : List α} {bs : List β}
    (each : List.Forall₂ R as bs) {b : β} (h : b ∈ bs) : ∃ a ∈ as, R a b := exists_right each.flip h

theorem forall₂_trans {α β γ : Type} {R : α → β → Prop} {Q : β → γ → Prop} {P : α → γ → Prop}
    {as : List α} {bs : List β} {cs : List γ} (each : List.Forall₂ R as bs)
    (each' : List.Forall₂ Q bs cs) (both : ∀ a b c, R a b → Q b c → P a c) :
    List.Forall₂ P as cs := by
  induction each generalizing cs with
  | nil =>
    cases each'
    exact .nil
  | cons first _ ih =>
    cases each' with
    | cons first' rest' => exact .cons (both _ _ _ first first') (ih rest')

theorem map_eq_of_forall₂ {α β γ : Type} {R : α → β → Prop} {f : α → γ} {g : β → γ} {as : List α}
    {bs : List β} (each : List.Forall₂ R as bs) (same : ∀ a b, R a b → f a = g b) :
    as.map f = bs.map g := by
  rw [← List.forall₂_eq_eq_eq, List.forall₂_map_left_iff, List.forall₂_map_right_iff]
  exact each.imp same

theorem nodup_some_names {α β : Type} {named : List (α × β)} :
    (named.map fun entry => some entry.1).Nodup ↔ (named.map Prod.fst).Nodup := by
  rw [← List.nodup_map_iff (f := some) (l := named.map Prod.fst) fun _ _ => Option.some.inj,
    List.map_map]
  rfl

/-! ## Classes of keys -/

section Classes

variable {κ κ' α α' : Type}

/-- The values of the entries whose keys are the same as a key. -/
def valuesUnder (same : κ → κ → Bool) (key : κ) (entries : List (κ × α)) : List α :=
  (entries.filter fun entry => same entry.1 key).map Prod.snd

/-- The entries whose keys are not the same as a key. -/
def without (same : κ → κ → Bool) (key : κ) (entries : List (κ × α)) : List (κ × α) :=
  entries.filter fun entry => !same entry.1 key

/-- One entry for each class of keys that are the same: the first key, at its place, with the last
value. -/
def collapse (same : κ → κ → Bool) : List (κ × α) → List (κ × α)
  | [] => []
  | (key, value) :: rest =>
    (key, (valuesUnder same key rest).getLastD value) :: collapse same (without same key rest)
termination_by entries => entries.length
decreasing_by exact Nat.lt_succ_of_le (List.length_filter_le _ _)

/-- Enters a value under a key: in place of the one under a key that is the same, or at the end. -/
def enter (same : κ → κ → Bool) (key : κ) (value : α) : List (κ × α) → List (κ × α)
  | [] => [(key, value)]
  | (other, old) :: rest =>
    if same key other then (other, value) :: rest else (other, old) :: enter same key value rest

/-- Enters entries one after the other. -/
def enterAll (same : κ → κ → Bool) (kept entries : List (κ × α)) : List (κ × α) :=
  entries.foldl (fun kept entry => enter same entry.1 entry.2 kept) kept

/-- The first entry gets the last value of its class, and what is not of its class is entered behind
it. -/
theorem enterAll_cons (same : κ → κ → Bool) (key : κ) (value : α) (kept entries : List (κ × α)) :
    enterAll same ((key, value) :: kept) entries =
      (key, (valuesUnder same key entries).getLastD value) ::
        enterAll same kept (without same key entries) := by
  induction entries generalizing value kept with
  | nil => rfl
  | cons entry rest ih =>
    rw [enterAll, List.foldl_cons, enter]
    cases isSame : same entry.1 key with
    | true =>
      have values : valuesUnder same key (entry :: rest) = entry.2 :: valuesUnder same key rest := by
        simp [valuesUnder, isSame]
      have others : without same key (entry :: rest) = without same key rest := by
        simp [without, isSame]
      rw [if_pos rfl, values, others, List.getLastD_cons]
      exact ih _ _
    | false =>
      have values : valuesUnder same key (entry :: rest) = valuesUnder same key rest := by
        simp [valuesUnder, isSame]
      have others : without same key (entry :: rest) = entry :: without same key rest := by
        simp [without, isSame]
      rw [if_neg Bool.false_ne_true, values, others]
      exact ih _ _

/-- Entries that are entered one after the other collapse. -/
theorem enterAll_nil (same : κ → κ → Bool) (entries : List (κ × α)) :
    enterAll same [] entries = collapse same entries := by
  induction entries using collapse.induct same with
  | case1 => simp [collapse, enterAll]
  | case2 key value rest ih =>
    rw [collapse, ← ih, ← enterAll_cons]
    rfl

/-- Entries of different keys stay as they are. -/
theorem collapse_of_distinct {same : κ → κ → Bool} {entries : List (κ × α)}
    (distinct : entries.Pairwise fun a b => same b.1 a.1 = false) :
    collapse same entries = entries := by
  induction entries with
  | nil => simp [collapse]
  | cons entry rest ih =>
    obtain ⟨here, distinctRest⟩ := List.pairwise_cons.1 distinct
    have none : valuesUnder same entry.1 rest = [] := by
      simpa [valuesUnder] using here
    have all : without same entry.1 rest = rest := by
      simpa [without] using here
    rw [collapse, none, all, ih distinctRest]
    rfl

theorem key_mem_of_mem_collapse {same : κ → κ → Bool} {entries : List (κ × α)} {entry : κ × α}
    (h : entry ∈ collapse same entries) : entry.1 ∈ entries.map Prod.fst := by
  induction entries using collapse.induct same with
  | case1 => simp [collapse] at h
  | case2 key value rest ih =>
    rw [collapse] at h
    rcases List.mem_cons.1 h with rfl | h
    · exact List.mem_cons_self
    · exact List.mem_cons_of_mem _ ((List.filter_sublist.map Prod.fst).subset (ih h))

theorem value_mem_of_mem_collapse {same : κ → κ → Bool} {entries : List (κ × α)} {entry : κ × α}
    (h : entry ∈ collapse same entries) : entry.2 ∈ entries.map Prod.snd := by
  induction entries using collapse.induct same with
  | case1 => simp [collapse] at h
  | case2 key value rest ih =>
    rw [collapse] at h
    rcases List.mem_cons.1 h with rfl | h
    · exact List.cons_subset_cons value (List.filter_sublist.map Prod.snd).subset
        List.getLastD_mem_cons
    · exact List.mem_cons_of_mem _ ((List.filter_sublist.map Prod.snd).subset (ih h))

/-- No two keys that are left are the same. -/
theorem pairwise_collapse (same : κ → κ → Bool) (entries : List (κ × α)) :
    (collapse same entries).Pairwise fun a b => same b.1 a.1 = false := by
  induction entries using collapse.induct same with
  | case1 => simp [collapse]
  | case2 key value rest ih =>
    rw [collapse]
    refine List.pairwise_cons.2 ⟨fun entry isEntry => ?_, ih⟩
    obtain ⟨other, isOther, isKey⟩ := List.mem_map.1 (key_mem_of_mem_collapse isEntry)
    have differ := (List.mem_filter.1 isOther).2
    rwa [isKey, Bool.not_eq_true'] at differ

/-- Something is left of something. -/
theorem collapse_eq_nil {same : κ → κ → Bool} {entries : List (κ × α)} :
    collapse same entries = [] ↔ entries = [] := by
  cases entries with
  | nil => exact iff_of_true (by rw [collapse]) rfl
  | cons entry rest =>
    rw [collapse]
    exact iff_of_false (List.cons_ne_nil _ _) (List.cons_ne_nil _ _)

/-- The last of values that correspond. -/
theorem getLastD_of_forall₂ {V : α → α' → Prop} {as : List α} {bs : List α'}
    (each : List.Forall₂ V as bs) {a : α} {b : α'} (first : V a b) :
    V (as.getLastD a) (bs.getLastD b) := by
  induction each generalizing a b with
  | nil => exact first
  | cons pair _ ih =>
    rw [List.getLastD_cons, List.getLastD_cons]
    exact ih pair

/-- Entries that correspond collapse to entries that correspond. -/
theorem forall₂_collapse {same : κ → κ → Bool} {same' : κ' → κ' → Bool} {K : κ → κ' → Prop}
    {V : α → α' → Prop} (agree : ∀ a b a' b', K a a' → K b b' → same a b = same' a' b')
    {entries : List (κ × α)} {others : List (κ' × α')}
    (each : List.Forall₂ (fun e o => K e.1 o.1 ∧ V e.2 o.2) entries others) :
    List.Forall₂ (fun e o => K e.1 o.1 ∧ V e.2 o.2) (collapse same entries)
      (collapse same' others) := by
  induction entries using collapse.induct same generalizing others with
  | case1 =>
    cases each
    simp [collapse]
  | case2 key value rest ih =>
    obtain _ | @⟨_, ⟨other, otherValue⟩, _, others, ⟨keys, values⟩, each⟩ := each
    have here (e : κ × α) (o : κ' × α') (h : K e.1 o.1 ∧ V e.2 o.2) :
        same e.1 key = same' o.1 other := agree _ _ _ _ h.1 keys
    have inside : List.Forall₂ V (valuesUnder same key rest) (valuesUnder same' other others) := by
      refine List.forall₂_map_left_iff.2 (List.forall₂_map_right_iff.2 ?_)
      exact (List.rel_filter (fun e o h => by simp only [here e o h]) each).imp fun _ _ h => h.2
    have outside := List.rel_filter (p := fun e => !same e.1 key) (q := fun o => !same' o.1 other)
      (fun e o h => by simp only [here e o h]) each
    rw [collapse, collapse]
    exact .cons ⟨keys, getLastD_of_forall₂ inside values⟩ (ih outside)

end Classes

namespace TextMap

variable {α : Type} {name : String} {value : α} {map entries others : List (String × α)}

theorem insert_perm (fresh : name ∉ map.map Prod.fst) :
    (insert name value map).Perm ((name, value) :: map) := by
  induction map with
  | nil => exact .refl _
  | cons entry rest ih =>
    obtain ⟨differ, fresh⟩ := not_or.1 (List.mem_cons.not.1 fresh)
    rw [insert, if_neg differ]
    split
    · exact .refl _
    · exact ((ih fresh).cons _).trans (.swap _ _ _)

theorem mem_names_insert {other : String} :
    other ∈ (insert name value map).map Prod.fst ↔ other = name ∨ other ∈ map.map Prod.fst := by
  induction map with
  | nil => simp [insert]
  | cons entry rest ih =>
    rw [insert]
    split
    · next same => simp [same]
    · split
      · simp
      · rw [List.map_cons, List.mem_cons, ih, List.map_cons, List.mem_cons, or_left_comm]

theorem ascending_insert (ascending : (map.map Prod.fst).Pairwise (· < ·)) :
    ((insert name value map).map Prod.fst).Pairwise (· < ·) := by
  induction map with
  | nil => exact List.pairwise_singleton _ _
  | cons entry rest ih =>
    obtain ⟨first, others⟩ := List.pairwise_cons.1 ascending
    rw [insert]
    split
    · next same => exact List.pairwise_cons.2 ⟨same ▸ first, others⟩
    · next differ =>
      split
      · next below =>
        refine List.pairwise_cons.2 ⟨List.forall_mem_cons.2 ⟨below, fun other isRest => ?_⟩, ascending⟩
        exact String.lt_trans below (first other isRest)
      · next above =>
        have below : entry.1 < name := by grind
        refine List.pairwise_cons.2 ⟨fun other isOther => ?_, ih others⟩
        rcases mem_names_insert.1 isOther with rfl | isRest
        · exact below
        · exact first other isRest

/-- The names of a map ascend, whatever it was made of. -/
theorem ascending_ofList (entries : List (String × α)) :
    ((ofList entries).map Prod.fst).Pairwise (· < ·) := by
  suffices ∀ kept : List (String × α), (kept.map Prod.fst).Pairwise (· < ·) →
      ((entries.foldl (fun map entry => insert entry.1 entry.2 map) kept).map Prod.fst).Pairwise
        (· < ·) from this [] .nil
  induction entries with
  | nil => exact fun _ ascending => ascending
  | cons entry rest ih => exact fun kept ascending => ih _ (ascending_insert ascending)

/-- A map has the names of what it was made of. -/
theorem mem_names_ofList :
    name ∈ (ofList entries).map Prod.fst ↔ name ∈ entries.map Prod.fst := by
  suffices ∀ kept : List (String × α),
      name ∈ (entries.foldl (fun map entry => insert entry.1 entry.2 map) kept).map Prod.fst ↔
        name ∈ kept.map Prod.fst ∨ name ∈ entries.map Prod.fst from
    (this []).trans (or_iff_right List.not_mem_nil)
  induction entries with
  | nil => simp
  | cons entry rest ih =>
    intro kept
    rw [List.foldl_cons, ih, mem_names_insert, List.map_cons, List.mem_cons, or_assoc, or_left_comm]

theorem lookup_cons {κ : Type} [DecidableEq κ] {map : List (κ × α)} {other : κ} {entry : κ × α} :
    (entry :: map).lookup other = if other = entry.1 then some entry.2 else map.lookup other := by
  rw [List.lookup_cons]
  by_cases same : other = entry.1
  · rw [if_pos same, beq_iff_eq.2 same]
  · rw [if_neg same, beq_false_of_ne same]

theorem lookup_insert {other : String} : (insert name value map).lookup other =
    if other = name then some value else map.lookup other := by
  induction map with
  | nil => exact lookup_cons
  | cons entry rest ih =>
    rw [insert]
    split
    · next same =>
      rw [lookup_cons, lookup_cons, same]
      split <;> rfl
    · split
      · exact lookup_cons
      · next differ _ =>
        rw [lookup_cons, lookup_cons, ih]
        split
        · next isOld => rw [if_neg fun isNew => differ (isNew.symm.trans isOld)]
        · rfl

/-- A name has the last value that was given to it. -/
theorem lookup_ofList : (ofList entries).lookup name = entries.reverse.lookup name := by
  induction entries using List.reverseRecOn with
  | nil => rfl
  | append_singleton entries entry ih =>
    have last : ofList (entries ++ [entry]) = insert entry.1 entry.2 (ofList entries) :=
      List.foldl_concat ..
    rw [last, lookup_insert, ih, List.reverse_append, List.reverse_singleton, List.singleton_append,
      lookup_cons]

/-- Entries of distinct names are there in a map of them, each once. -/
theorem ofList_perm (distinct : (entries.map Prod.fst).Nodup) : (ofList entries).Perm entries := by
  suffices ∀ kept : List (String × α), ((kept ++ entries).map Prod.fst).Nodup →
      (entries.foldl (fun map entry => insert entry.1 entry.2 map) kept).Perm (kept ++ entries) from
    this [] distinct
  clear distinct
  induction entries with
  | nil => exact fun kept _ => by simp
  | cons entry rest ih =>
    intro kept distinct
    have middle : (kept ++ entry :: rest).Perm (entry :: kept ++ rest) := List.perm_middle
    have distinct := (middle.map Prod.fst).nodup_iff.1 distinct
    obtain ⟨apart, -⟩ := List.nodup_cons.1 distinct
    have fresh : entry.1 ∉ kept.map Prod.fst := fun isKept =>
      apart (List.map_append ▸ List.mem_append_left _ isKept)
    have perm : (insert entry.1 entry.2 kept).Perm (entry :: kept) := insert_perm fresh
    have more := perm.append_right rest
    exact (ih _ ((more.map Prod.fst).nodup_iff.2 distinct)).trans (more.trans middle.symm)

/-- Entries of distinct names are sorted by them. -/
theorem ofList_of_distinct (distinct : (entries.map Prod.fst).Nodup) :
    (ofList entries).Perm entries ∧ ((ofList entries).map Prod.fst).Pairwise (· < ·) :=
  ⟨ofList_perm distinct, ascending_ofList entries⟩

theorem distinct_of_ascending (ascending : (map.map Prod.fst).Pairwise (· < ·)) :
    (map.map Prod.fst).Nodup := by
  refine ascending.imp fun {name other} below => ?_
  rintro rfl
  exact String.lt_irrefl _ below

/-- Sorting leads to the one order in which the names ascend. -/
theorem ofList_of_perm (perm : others.Perm entries)
    (ascending : (entries.map Prod.fst).Pairwise (· < ·)) : ofList others = entries := by
  have distinct := (perm.map Prod.fst).nodup_iff.2 (distinct_of_ascending ascending)
  obtain ⟨sorted, ascends⟩ := ofList_of_distinct distinct
  refine (sorted.trans perm).eq_of_pairwise (fun a b _ _ below above => ?_)
    (List.pairwise_map.1 ascends) (List.pairwise_map.1 ascending)
  exact absurd above (String.lt_asymm below)

/-- Entries whose names ascend are a map as they stand. -/
theorem ofList_of_ascending (ascending : (entries.map Prod.fst).Pairwise (· < ·)) :
    ofList entries = entries := ofList_of_perm (.refl _) ascending

theorem insert_map {β : Type} (f : α → β) (name : String) (a : α) (map : List (String × α)) :
    insert name (f a) (map.map fun entry => (entry.1, f entry.2)) =
      (insert name a map).map fun entry => (entry.1, f entry.2) := by
  induction map with
  | nil => rfl
  | cons entry rest ih =>
    simp only [List.map_cons, insert]
    split_ifs
    · rfl
    · rfl
    · rw [ih, List.map_cons]

/-- A map of what entries become has what each of their map becomes. -/
theorem ofList_map {β : Type} (f : α → β) (entries : List (String × α)) :
    ofList (entries.map fun entry => (entry.1, f entry.2)) =
      (ofList entries).map fun entry => (entry.1, f entry.2) := by
  suffices ∀ kept : List (String × α),
      (entries.map fun entry => (entry.1, f entry.2)).foldl
        (fun map entry => insert entry.1 entry.2 map)
        (kept.map fun entry => (entry.1, f entry.2)) =
      (entries.foldl (fun map entry => insert entry.1 entry.2 map) kept).map
        fun entry => (entry.1, f entry.2) from this []
  induction entries with
  | nil => exact fun _ => rfl
  | cons entry rest ih =>
    intro kept
    rw [List.map_cons, List.foldl_cons, List.foldl_cons]
    exact (congrArg (List.foldl _ · _) (insert_map f entry.1 entry.2 kept)).trans (ih _)

end TextMap

namespace HostValue

/-! ## The normal form -/

/-- The dynamic value of a scalar. -/
def scalar? : HostValue → Option Value
  | null => some .nothing
  | bool b => some (.bool b)
  | int i => some (.int i)
  | wide i => some (.int i)
  | float x => some (.float x)
  | string s => some (.string s)
  | bytes b => some (.bytes b)
  | time t => some (.time t)
  | list _ => none
  | map _ => none
  | pairs _ => none
  | native _ => none

theorem scalar?_ofInt (i : Int) : (ofInt i).scalar? = some (.int i) := by
  unfold ofInt
  split <;> rfl

/-- Are two keys equal as dynamic values? No list, map or handle can be a key. -/
def sameKey (a b : HostValue) : Bool :=
  match a.scalar?, b.scalar? with
  | some v, some w => Store.scalarEqual v w
  | _, _ => false

mutual

/-- The normal form of a host value. -/
def norm : HostValue → HostValue
  | null => null
  | bool b => bool b
  | int i => int i
  | wide i => ofInt i
  | float x => float x
  | string s => string s
  | bytes b => bytes b
  | time t => time t
  | list items => list (normItems items)
  | map entries => map (normEntries entries)
  | pairs entries => ofPairs (collapse sameKey (normPairs entries))
  | native handle => native handle

def normItems : List HostValue → List HostValue
  | [] => []
  | item :: rest => norm item :: normItems rest

def normEntries : List (String × HostValue) → List (String × HostValue)
  | [] => []
  | (name, item) :: rest => (name, norm item) :: normEntries rest

def normPairs : List (HostValue × HostValue) → List (HostValue × HostValue)
  | [] => []
  | (key, item) :: rest => (norm key, norm item) :: normPairs rest

end

/-- Entries under texts are a map by name. -/
theorem ofPairs_texts (named : List (String × HostValue)) :
    ofPairs (named.map fun entry => (string entry.1, entry.2)) = ofEntries named := by
  have found : textEntries? (named.map fun entry => (string entry.1, entry.2)) = some named := by
    induction named with
    | nil => rfl
    | cons entry rest ih =>
      rw [List.map_cons, textEntries?, ih]
      rfl
  rw [ofPairs, found]

theorem normItems_eq (items : List HostValue) : normItems items = items.map norm := by
  induction items with
  | nil => rfl
  | cons item rest ih => rw [normItems, ih, List.map_cons]

theorem normEntries_eq (entries : List (String × HostValue)) :
    normEntries entries = entries.map fun entry => (entry.1, entry.2.norm) := by
  induction entries with
  | nil => rfl
  | cons entry rest ih => rw [normEntries, ih, List.map_cons]

theorem normPairs_eq (entries : List (HostValue × HostValue)) :
    normPairs entries = entries.map fun entry => (entry.1.norm, entry.2.norm) := by
  induction entries with
  | nil => rfl
  | cons entry rest ih => rw [normPairs, ih, List.map_cons]

/-- A host value whose integers have their width, whose maps are in order, and whose handles refer to
something that may be handed over as it is. -/
inductive Portable : HostValue → Prop
  | null : Portable null
  | bool (b : Bool) : Portable (bool b)
  | int {i : Int} (fits : Binary64.fitsInt64 i = true) : Portable (int i)
  | wide (i : Int) : Portable (wide i)
  | float (x : Binary64) : Portable (float x)
  | string (s : String) : Portable (string s)
  | bytes (b : List UInt8) : Portable (bytes b)
  | time (t : Instant) : Portable (time t)
  | list {items : List HostValue} (each : ∀ item ∈ items, Portable item) : Portable (list items)
  | map {entries : List (String × HostValue)}
      (ascending : (entries.map Prod.fst).Pairwise (· < ·))
      (each : ∀ entry ∈ entries, Portable entry.2) : Portable (map entries)
  | pairs {entries : List (HostValue × HostValue)} (keys : ∀ entry ∈ entries, Portable entry.1)
      (values : ∀ entry ∈ entries, Portable entry.2) : Portable (pairs entries)
  | native {handle : Native} (refers : handle.isNil = false) (plain : handle.presentation = none)
      (proxied : handle.proxied = true) : Portable (native handle)

end HostValue
end Interchange
