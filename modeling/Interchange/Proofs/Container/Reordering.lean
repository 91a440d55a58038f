import Interchange.Proofs.Container.DictHistory

/-!
# Entries in another order

Entries with lawful keys, no two of them equal, are told by their keys and by what these are looked
up to, but for their order (`Lawful.perm_of_lookup?`). Dicts that have the same entries in another
order are equal, whatever else the values lead to (`equals_of_perm`).
-/

namespace Interchange.Store

variable {s : Store} {keys : Value → Prop} {entries others : List (Value × Value)}
  {entry : Value × Value}

/-- No two keys are the same. -/
theorem Tidy.nodup_keys (tidy : s.Tidy keys entries) : (entries.map Prod.fst).Nodup :=
  tidy.apart.imp fun {v w} apart same => by
    subst same
    have unequal : s.equals v v = false := apart.1
    rw [equals_self] at unequal
    cases unequal

/-- An entry is one when its key is there and is looked up to its value. -/
theorem Lawful.mem_iff (lawful : s.Lawful keys) (tidy : s.Tidy keys entries) : entry ∈ entries ↔
    entry.1 ∈ entries.map Prod.fst ∧ s.lookup? entry.1 entries = some entry.2 := by
  have looked {entry : Value × Value} (isEntry : entry ∈ entries) :
      s.lookup? entry.1 entries = some entry.2 := by
    have isKey := tidy.keys entry.1 (List.mem_map_of_mem isEntry)
    exact lawful.lookup?_of_mem tidy.keys tidy.apart isEntry isKey (s.equals_self entry.1)
  constructor
  · intro isEntry
    exact ⟨List.mem_map_of_mem isEntry, looked isEntry⟩
  · rintro ⟨isKey, found⟩
    obtain ⟨other, isOther, same⟩ := List.mem_map.1 isKey
    have found' := looked isOther
    rw [same, found] at found'
    have isSame : other = entry := Prod.ext same (Option.some.inj found').symm
    rwa [isSame] at isOther

/-- Entries with the same keys, which are looked up to the same, are the same in some order. -/
theorem Lawful.perm_of_lookup? (lawful : s.Lawful keys) (tidy : s.Tidy keys entries)
    (tidy' : s.Tidy keys others)
    (same : ∀ key, key ∈ entries.map Prod.fst ↔ key ∈ others.map Prod.fst)
    (looked : ∀ key ∈ entries.map Prod.fst, s.lookup? key entries = s.lookup? key others) :
    entries.Perm others := by
  refine (List.perm_ext_iff_of_nodup (.of_map _ tidy.nodup_keys) (.of_map _ tidy'.nodup_keys)).2 ?_
  intro entry
  rw [lawful.mem_iff tidy, lawful.mem_iff tidy', ← same]
  exact and_congr_right fun isKey => by rw [looked entry.1 isKey]

theorem Tidy.perm (tidy : s.Tidy keys entries) (perm : entries.Perm others) :
    s.Tidy keys others where
  keys := fun key isKey => tidy.keys key ((perm.map Prod.fst).mem_iff.2 isKey)
  apart := ((perm.map Prod.fst).pairwise_iff fun apart => ⟨apart.2, apart.1⟩).1 tidy.apart

/-- Entries with steady keys stay so. -/
theorem Tidy.later {t : Store} (tidy : s.Tidy (fun v => s.Has v ∧ s.Steady v) entries)
    (evolves : s.Evolves t) (aged : s.Aged) : t.Tidy (fun v => t.Has v ∧ t.Steady v) entries where
  keys := fun key isKey => by
    obtain ⟨has, steady⟩ := tidy.keys key isKey
    exact ⟨evolves.has has, (steady_iff evolves aged has).2 steady⟩
  apart := tidy.apart.imp_of_mem fun {v w} isKey isKey' apart => by
    obtain ⟨has, steady⟩ := tidy.keys v isKey
    exact (apart_iff evolves aged has (tidy.keys w isKey').1 (.inl steady)).2 apart

/-- The entries of a dict whose keys are all steady. -/
theorem WellKeyed.tidy (keyed : s.WellKeyed) (closed : s.Closed) {ref : Ref} {frozen : Bool}
    (cell : s.cell ref = .dict entries frozen) (steady : ∀ key ∈ entries.map Prod.fst, s.Steady key) :
    s.Tidy (fun v => s.Has v ∧ s.Steady v) entries where
  keys := fun key isKey =>
    ⟨closed ref key (Cell.held_of_keys (by rw [cell]; exact isKey)), steady key isKey⟩
  apart := by
    have apart := keyed.apart ref
    rw [cell] at apart
    exact apart.imp_of_mem fun isKey _ apart => apart (.inl (steady _ isKey))

section Equal

variable {r q : Ref} {frozen flag : Bool} {v w : Value}

/-- What is opposite in entries and the same in another order is the same. -/
theorem Lawful.opposite_eq (lawful : s.Lawful keys) (tidy : s.Tidy keys entries)
    (perm : entries.Perm others)
    (opposite : s.Opposite v w (.dict entries frozen) (.dict others flag)) : v = w := by
  cases opposite with
  | @value key _ _ _ _ isEntry found =>
    have found' := ((lawful.mem_iff (tidy.perm perm)).1 (perm.mem_iff.1 isEntry)).2
    rw [found] at found'
    exact (Option.some.inj found').symm

/-- Dicts of the same entries in another order are equal. -/
theorem equals_of_perm (aged : s.Aged) (named : s.Named)
    (tidy : s.Tidy (fun v => s.Has v ∧ s.Steady v) entries) (perm : entries.Perm others)
    (cell : s.cell r = .dict entries frozen) (cell' : s.cell q = .dict others flag) :
    s.equals (.object r) (.object q) = true := by
  by_cases other : r = q
  · rw [other]
    exact s.equals_self _
  have lawful := lawful_steady aged named
  have tidy' := tidy.perm perm
  -- All that is compared is a value with itself, which ends at once.
  have selfEnds (depth : Nat) (path : List (Ref × Ref)) (v : Value) :
      s.equalWithin depth path v v ≠ none := by
    by_cases scalar : v.identity? = none
    · rw [equalWithin_scalar (.inl scalar)]
      exact nofun
    · obtain ⟨ref, isObject⟩ := Option.ne_none_iff_exists'.1 scalar
      obtain rfl := Value.identity?_eq_some.1 isObject
      rw [equalWithin_self]
      exact nofun
  have ends : s.equal? (.object r) (.object q) ≠ none := by
    have room : s.size < s.depthBound := by
      have le : s.size ≤ s.size * s.size := Nat.le_mul_self _
      calc s.size < 2 * (s.size * s.size + 2) := by omega
        _ ≤ s.depthBound := Nat.mul_le_mul_right _ (Nat.le_add_left 2 _)
    obtain ⟨depth, bound⟩ := Nat.exists_eq_add_one_of_ne_zero (Nat.ne_zero_of_lt room)
    rw [bound] at room
    have le : depth ≤ s.depthBound := by omega
    rw [equal?, bound, equalWithin, if_neg other, cell, cell']
    refine cellsEqual_ends (looks_equalWithin le) (fun v isKey w isKey' => ?_) fun v w opposite => ?_
    · obtain ⟨has, steady⟩ := tidy.keys v isKey
      exact equalWithin_ends aged le (.inl ⟨steady, Value.Below.mono has (Nat.le_of_lt_succ room)⟩)
    · obtain rfl := lawful.opposite_eq tidy perm opposite
      exact selfEnds depth _ v
  have alike (v : Value) (n : Nat) : ¬ s.Differs n v v :=
    (equals_iff (selfEnds _ _ v)).1 (s.equals_self v) n
  rw [equals_iff ends]
  intro n differs
  cases differs with
  | scalars scalar => rcases scalar with scalar | scalar <;> cases scalar
  | cells _ unfit =>
    rw [cell, cell'] at unfit
    refine unfit (.dict perm.length_eq fun entry isEntry => ?_)
    rw [((lawful.mem_iff tidy').1 (perm.mem_iff.1 isEntry)).2]
    rfl
  | parts _ opposite differs =>
    rw [cell, cell'] at opposite
    obtain rfl := lawful.opposite_eq tidy perm opposite
    exact alike _ _ differs

end Equal

end Interchange.Store
