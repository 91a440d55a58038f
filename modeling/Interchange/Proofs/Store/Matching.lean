import Interchange.Proofs.Crossing.RoundTrip
import Interchange.Proofs.Store.Equivalence

/-!
# Values that match

Two values match when they are equal scalars, or lists or dicts whose parts match (`Store.Matches`):
elements in order, and the entries of a dict under the same scalar keys in any order. Values that
match are equal (`Matches.equals`).
-/

namespace Interchange.Store

/-- Two equal scalars, or two lists with matching elements, or two dicts that have matching values
under the same scalar keys, in any order. -/
inductive Matches (s : Store) : Value → Value → Prop
  | scalar {v w : Value} (same : scalarEqual v w = true) : Matches s v w
  | list {r q : Ref} {items others : List Value} {frozen flag : Bool}
      (cell : s.cell r = .list items frozen) (cell' : s.cell q = .list others flag)
      (length : items.length = others.length)
      (each : ∀ pair ∈ items.zip others, Matches s pair.1 pair.2) :
      Matches s (.object r) (.object q)
  | dict {r q : Ref} {entries others sorted sorted' : List (Value × Value)} {frozen flag : Bool}
      (cell : s.cell r = .dict entries frozen) (cell' : s.cell q = .dict others flag)
      (perm : entries.Perm sorted) (perm' : others.Perm sorted')
      (scalars : ∀ key ∈ sorted.map Prod.fst, key.identity? = none)
      (keys : sorted.map Prod.fst = sorted'.map Prod.fst)
      (values : ∀ pair ∈ sorted.zip sorted', Matches s pair.1.2 pair.2.2) :
      Matches s (.object r) (.object q)

variable {s : Store} {v w : Value} {r ref : Ref}

theorem mem_zip_swap {α β : Type} {as : List α} {bs : List β} {pair : β × α}
    (h : pair ∈ bs.zip as) : pair.swap ∈ as.zip bs := by
  rw [← List.zip_swap]
  exact List.mem_map_of_mem h

/-- Entries of the same keys stand in step. -/
theorem mem_zip_of_keys {α β γ : Type} {as : List (α × β)} {bs : List (α × γ)} {key : α} {a : β}
    {b : γ} (keys : as.map Prod.fst = bs.map Prod.fst) (distinct : (as.map Prod.fst).Nodup)
    (h : (key, a) ∈ as) (h' : (key, b) ∈ bs) : ((key, a), (key, b)) ∈ as.zip bs := by
  induction as generalizing bs with
  | nil => cases h
  | cons first as ih =>
    obtain _ | ⟨other, bs⟩ := bs
    · cases h'
    obtain ⟨same, further⟩ := List.cons.inj keys
    obtain ⟨fresh, distinct⟩ := List.nodup_cons.1 distinct
    have key_mem {δ : Type} {c : δ} {more : List (α × δ)} (h : (key, c) ∈ more) :
        key ∈ more.map Prod.fst := List.mem_map_of_mem (f := Prod.fst) h
    rcases List.mem_cons.1 h with rfl | h <;> rcases List.mem_cons.1 h' with rfl | h'
    · exact List.mem_cons_self
    · exact absurd (further ▸ key_mem h') fresh
    · exact absurd (same ▸ key_mem h) fresh
    · exact List.mem_cons_of_mem _ (ih further distinct h h')

/-- Equal keys of a cell are the same key, if one is a scalar. -/
theorem WellKeyed.key_eq (keyed : s.WellKeyed) (isKey : v ∈ (s.cell ref).keys)
    (isKey' : w ∈ (s.cell ref).keys) (scalar : v.identity? = none)
    (equal : s.equals v w = true) : v = w := by
  by_contra differ
  have : Std.Symm fun v w => s.EitherSteady v w → s.Apart v w :=
    ⟨fun _ _ apart either => (apart either.symm).symm⟩
  have apart := (keyed.apart ref).forall isKey isKey' differ
  rw [(apart (.inl (.scalar scalar))).1] at equal
  cases equal

/-- Keys that are scalars are distinct. -/
theorem WellKeyed.nodup_keys (keyed : s.WellKeyed)
    (scalars : ∀ key ∈ (s.cell ref).keys, key.identity? = none) : (s.cell ref).keys.Nodup := by
  refine (keyed.apart ref).imp_of_mem fun {v w} isKey _ apart => ?_
  rintro rfl
  have unequal := (apart (.inl (.scalar (scalars v isKey)))).1
  rw [s.equals_self] at unequal
  cases unequal

theorem Matches.symm (same : s.Matches v w) : s.Matches w v := by
  induction same with
  | scalar same => exact .scalar (by rwa [scalarEqual_comm])
  | list cell cell' length _ ih =>
    exact .list cell' cell length.symm fun pair isPair => ih _ (mem_zip_swap isPair)
  | dict cell cell' perm perm' scalars keys _ ih =>
    exact .dict cell' cell perm' perm (keys ▸ scalars) keys.symm fun pair isPair =>
      ih _ (mem_zip_swap isPair)

/-- No walk leads from values that match to a difference. -/
theorem Matches.not_differs (keyed : s.WellKeyed) (same : s.Matches v w) (n : Nat) :
    ¬ s.Differs n v w := by
  intro differs
  induction differs with
  | scalars either unequal =>
    cases same with
    | scalar same =>
      rw [same] at unequal
      cases unequal
    | list | dict => rcases either with scalar | scalar <;> cases scalar
  | cells other unfit =>
    cases same with
    | scalar same => cases scalarEqual_object _ _ ▸ same
    | list cell cell' length =>
      rw [cell, cell'] at unfit
      exact unfit (.list length)
    | @dict _ _ entries others sorted sorted' _ _ cell cell' perm perm' _ keys _ =>
      rw [cell, cell'] at unfit
      have length : sorted.length = sorted'.length := by simpa using congrArg List.length keys
      refine unfit (.dict (by rw [perm.length_eq, perm'.length_eq, length]) ?_)
      intro entry isEntry
      have isKey : entry.1 ∈ sorted'.map Prod.fst :=
        keys ▸ List.mem_map_of_mem (perm.mem_iff.1 isEntry)
      obtain ⟨other, isOther, same⟩ := List.mem_map.1 isKey
      exact lookup?_isSome_iff.2 ⟨other, perm'.mem_iff.2 isOther, same ▸ s.equals_self _⟩
  | @parts _ r _ _ _ other opposite _ ih =>
    cases same with
    | scalar same => cases scalarEqual_object _ _ ▸ same
    | list cell cell' _ each =>
      rw [cell, cell'] at opposite
      cases opposite with
      | item isPair => exact ih (each _ isPair)
    | @dict _ _ entries others sorted sorted' _ _ cell cell' perm perm' scalars keys values =>
      rw [cell, cell'] at opposite
      cases opposite with
      | value isEntry found =>
        obtain ⟨key, isOther, equal⟩ := exists_of_lookup? found
        have keys_eq : (s.cell r).keys = entries.map Prod.fst := by rw [cell]; rfl
        have keyPerm := perm.map Prod.fst
        have scalars' : ∀ key ∈ (s.cell r).keys, key.identity? = none := fun key isKey =>
          scalars key (keyPerm.mem_iff.1 (keys_eq ▸ isKey))
        have isKey := keys_eq.symm ▸ List.mem_map_of_mem (f := Prod.fst) isEntry
        have isKey' : key ∈ (s.cell r).keys := by
          rw [keys_eq, keyPerm.mem_iff, keys]
          exact List.mem_map_of_mem (f := Prod.fst) (perm'.mem_iff.1 isOther)
        -- Equal keys are the same, so what is looked up stands in step.
        cases keyed.key_eq isKey isKey' (scalars' _ isKey) equal
        have distinct := keyPerm.nodup_iff.1 (keys_eq ▸ keyed.nodup_keys scalars')
        exact ih (values _ (mem_zip_of_keys keys distinct (perm.mem_iff.1 isEntry)
          (perm'.mem_iff.1 isOther)))

/-- A part of a value with a match has a match. -/
theorem Matches.part (same : s.Matches (.object ref) w) (part : v ∈ (s.cell ref).parts) :
    ∃ u, s.Matches v u := by
  cases same with
  | scalar same => cases scalarEqual_object _ _ ▸ same
  | list cell _ length each =>
    rw [cell] at part
    obtain ⟨other, paired⟩ := exists_pair_of_mem length part
    exact ⟨other, each _ paired⟩
  | dict cell _ perm _ scalars keys values =>
    rw [cell] at part
    obtain ⟨entry, isEntry, same⟩ := mem_entryParts.1 part
    have isEntry := perm.mem_iff.1 isEntry
    rcases same with rfl | rfl
    · have scalar := scalars _ (List.mem_map_of_mem isEntry)
      exact ⟨entry.1, .scalar (scalarEqual_iff.2 ⟨scalar, rfl⟩)⟩
    · obtain ⟨other, paired⟩ :=
        exists_pair_of_mem (by simpa using congrArg List.length keys) isEntry
      exact ⟨other.2, values _ paired⟩

/-- A value with a match leads to no record. -/
theorem Matches.tame (has : s.Has v) (same : s.Matches v w) : s.Tame v where
  has := has
  tagged := by
    intro ref tag fields reaches cell
    have reached {u : Value} (reaches : s.ReachesBy Cell.parts v u) : ∃ x, s.Matches u x := by
      induction reaches with
      | refl => exact ⟨w, same⟩
      | tail _ leads ih =>
        obtain ⟨other, rfl, part⟩ := leads
        obtain ⟨x, same⟩ := ih
        exact same.part part
    obtain ⟨x, same⟩ := reached reaches
    cases same with
    | scalar same => cases scalarEqual_object _ _ ▸ same
    | list list => rw [list] at cell; cases cell
    | dict dict => rw [dict] at cell; cases cell

/-- Values that match are equal. -/
theorem Matches.equals (keeps : s.Lawkeeping) (has : s.Has v) (has' : s.Has w)
    (same : s.Matches v w) : s.equals v w = true :=
  (equals_iff (keeps.equal?_ends (same.tame has) (same.symm.tame has'))).2
    (same.not_differs keeps.toWellKeyed)

end Interchange.Store
