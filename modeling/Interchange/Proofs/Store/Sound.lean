import Interchange.Proofs.Store.Settling

/-!
# Sound stores

What holds of a store at all times (`Store.Sound`): it has what its cells hold, cells that never
change hold only what is older, a frozen mapping has a frozen dict, what lies behind a flag is
tight, and the keys of dicts are hashable. It holds of the empty store, and every step keeps it
(`Step.sound`).
-/

namespace Interchange.Store

/-- The keys of dicts are hashable. -/
def Keyed (s : Store) : Prop :=
  ∀ ref entries flag, s.cell ref = .dict entries flag →
    ∀ entry ∈ entries, s.checkHashable entry.1 = .ok ()

/-- What holds of a store at all times. -/
structure Sound (s : Store) : Prop extends Walkable s where
  settled : s.Settled []
  keyed : s.Keyed

variable {s t : Store} {ref : Ref} {v : Value} {c : Cell}

/-- A store without cells is sound. -/
theorem sound_of_size_eq_zero (none : s.size = 0) : s.Sound := by
  have cell (ref : Ref) : s.cell ref = .tuple [] :=
    cell_of_size_le (none ▸ Nat.zero_le ref.index)
  refine ⟨⟨?_, ?_, ?_⟩, ?_, ?_⟩
  · intro ref v held
    rw [cell ref] at held
    cases held
  · intro ref _ v held
    rw [cell ref] at held
    cases held
  · intro ref name dict frozen mapping
    rw [cell ref] at mapping
    cases mapping
  · intro ref _ frozen
    rw [cell ref] at frozen
    cases frozen
  · intro ref entries flag dict
    rw [cell ref] at dict
    cases dict

/-! ## What lies behind flags -/

/-- What is tight stays so, as long as it is there. -/
theorem Evolves.tight (h : s.Evolves t) (closed : s.Closed) (has : s.Has v) (tight : s.Tight v) :
    t.Tight v := by
  induction tight with
  | scalar scalar => exact .scalar scalar
  | @frozen ref frozen =>
    refine .frozen ?_
    rw [h.cell_of_isFrozen frozen]
    exact frozen
  | @plain ref plain _ ih =>
    have same := h.cell_of_not_container (has_object.1 has) plain
    refine .plain (by rwa [same]) fun v isPart => ?_
    rw [same] at isPart
    exact ih v isPart (closed ref v (Cell.held_of_freezeParts isPart))

/-- A step that sets no flag keeps what is behind flags tight. -/
theorem Step.settled_of_frozen (h : Step s t) (closed : s.Closed) (settled : s.Settled [])
    (before : ∀ ref, (t.cell ref).isFrozen = true → (s.cell ref).isFrozen = true) :
    t.Settled [] := by
  intro ref _ frozen v isPart
  have wasFrozen := before ref frozen
  rw [h.evolves.cell_of_isFrozen wasFrozen] at isPart
  have held := Cell.held_of_freezeParts isPart
  exact h.evolves.tight closed (closed ref v held)
    (settled ref List.not_mem_nil wasFrozen v isPart)

theorem isFrozen_of_write (loose : c.isFrozen = false) {other : Ref}
    (frozen : ((s.write ref c).cell other).isFrozen = true) : (s.cell other).isFrozen = true := by
  by_cases same : ref = other
  · subst same
    by_cases inside : ref.index < s.size
    · rw [cell_write_self s c inside, loose] at frozen
      cases frozen
    · rwa [write_of_size_le (Nat.not_lt.1 inside)] at frozen
  · rwa [cell_write_other s c same] at frozen

theorem Fresh.isFrozen_eq_false (fresh : s.Fresh c) : c.isFrozen = false := by
  cases c with
  | list => exact fresh
  | set | dict | mapping => exact fresh.1
  | _ => rfl

theorem Step.settled (h : Step s t) (walkable : s.Walkable) (settled : s.Settled []) :
    t.Settled [] := by
  have step := h
  cases h with
  | alloc fresh has =>
    apply step.settled_of_frozen walkable.closed settled
    intro ref frozen
    rcases lt_size_or_eq_of_alloc
      (lt_size_of_isContainer (Cell.isContainer_of_isFrozen frozen)) with inside | rfl
    · rwa [cell_alloc_other s _ inside] at frozen
    · rw [cell_alloc_self, fresh.isFrozen_eq_false] at frozen
      cases frozen
  | list | enter | put | erase | clear =>
    apply step.settled_of_frozen walkable.closed settled
    intro ref frozen
    exact isFrozen_of_write rfl frozen
  | freeze v => exact (freeze_settled walkable settled v).1

/-! ## Mappings and their dicts -/

/-- Other contents of a container that is no mapping leave mappings and dicts together. -/
theorem Wrapped.write {old : Cell} (wrapped : s.Wrapped) (cell : s.cell ref = old)
    (container : old.isContainer = true) (loose : old.isFrozen = false)
    (direct : ∀ name dict frozen, c ≠ .mapping name dict frozen)
    (dicts : ∀ entries flag, old = .dict entries flag → ∃ entries', c = .dict entries' false) :
    (s.write ref c).Wrapped := by
  subst cell
  have inside := lt_size_of_isContainer container
  intro r name dict frozen mapping
  by_cases same : ref = r
  · subst same
    rw [cell_write_self s c inside] at mapping
    exact absurd mapping (direct name dict frozen)
  · rw [cell_write_other s c same] at mapping
    obtain ⟨entries, flag, under, behind⟩ := wrapped r name dict frozen mapping
    by_cases itself : ref = dict
    · subst itself
      obtain ⟨entries', rfl⟩ := dicts entries flag under
      refine ⟨entries', false, cell_write_self s _ inside, fun isFrozen => ?_⟩
      rw [under, behind isFrozen] at loose
      cases loose
    · exact ⟨entries, flag, by rwa [cell_write_other s c itself], behind⟩

theorem Step.wrapped (h : Step s t) (wrapped : s.Wrapped) : t.Wrapped := by
  cases h with
  | @alloc c fresh has =>
    have kept {dict : Ref} {entries : List (Value × Value)} {flag : Bool}
        (under : s.cell dict = .dict entries flag) :
        (s.alloc c).2.cell dict = .dict entries flag := by
      rwa [cell_alloc_other s c (lt_size_of_isContainer (by rw [under]; rfl))]
    intro ref name dict frozen mapping
    rcases lt_size_or_eq_of_alloc (lt_size_of_isContainer (by rw [mapping]; rfl)) with inside | rfl
    · rw [cell_alloc_other s c inside] at mapping
      obtain ⟨entries, flag, under, behind⟩ := wrapped ref name dict frozen mapping
      exact ⟨entries, flag, kept under, behind⟩
    · rw [cell_alloc_self] at mapping
      subst mapping
      obtain ⟨loose, -, entries, under⟩ := fresh
      exact ⟨entries, false, kept under, fun isFrozen => by rw [loose] at isFrozen; cases isFrozen⟩
  | list cell =>
    exact wrapped.write cell rfl rfl (fun _ _ _ same => by cases same) fun _ _ same => by cases same
  | enter cell =>
    exact wrapped.write cell rfl rfl (fun _ _ _ same => by cases same) fun _ _ same => by cases same
  | put cell | erase _ cell | clear cell =>
    exact wrapped.write cell rfl rfl (fun _ _ _ same => by cases same) fun _ _ _ => ⟨_, rfl⟩
  | freeze v => exact freezeWithin_wrapped wrapped _ v

/-! ## Keys -/

/-- The store has the keys of entries, and they are hashable. -/
def Keys (s : Store) (entries : List (Value × Value)) : Prop :=
  ∀ entry ∈ entries, s.Has entry.1 ∧ s.checkHashable entry.1 = .ok ()

theorem Sound.keys (h : s.Sound) {entries : List (Value × Value)} {flag : Bool}
    (cell : s.cell ref = .dict entries flag) : s.Keys entries := by
  refine fun entry isEntry => ⟨h.closed ref _ ?_, h.keyed ref entries flag cell entry isEntry⟩
  rw [cell]
  exact List.mem_flatMap.2 ⟨entry, isEntry, List.mem_cons_self⟩

theorem Keys.has {entries : List (Value × Value)} (keys : s.Keys entries) :
    ∀ key ∈ entries.map Prod.fst, s.Has key :=
  List.forall_mem_map.2 fun entry isEntry => (keys entry isEntry).1

theorem Keys.putEntry {key value : Value} {entries : List (Value × Value)} (keys : s.Keys entries)
    (has : s.Has key) (hashable : s.checkHashable key = .ok ()) :
    s.Keys (s.putEntry key value entries) := by
  induction entries with
  | nil =>
    intro entry isEntry
    rw [List.mem_singleton.1 isEntry]
    exact ⟨has, hashable⟩
  | cons first rest ih =>
    obtain ⟨other, old⟩ := first
    have here := keys _ List.mem_cons_self
    have others : s.Keys rest := fun entry isRest => keys entry (List.mem_cons_of_mem _ isRest)
    rw [Store.putEntry]
    split
    · intro entry isEntry
      rcases List.mem_cons.1 isEntry with rfl | isRest
      · exact here
      · exact others entry isRest
    · intro entry isEntry
      rcases List.mem_cons.1 isEntry with rfl | isRest
      · exact here
      · exact ih others entry isRest

theorem Keys.eraseEntry {entries : List (Value × Value)} (keys : s.Keys entries) (key : Value) :
    s.Keys (s.eraseEntry key entries) :=
  fun entry isEntry => keys entry (List.mem_of_mem_eraseP isEntry)

/-- After a write, dicts have the keys of dicts before or those that are written. -/
theorem keys_of_write
    (before : ∀ ref entries flag, s.cell ref = .dict entries flag → s.Keys entries)
    (written : ∀ entries flag, c = .dict entries flag → s.Keys entries) :
    ∀ other entries flag, (s.write ref c).cell other = .dict entries flag → s.Keys entries := by
  intro other entries flag cell
  by_cases same : ref = other
  · subst same
    by_cases inside : ref.index < s.size
    · rw [cell_write_self s c inside] at cell
      exact written entries flag cell
    · rw [write_of_size_le (Nat.not_lt.1 inside)] at cell
      exact before ref entries flag cell
  · rw [cell_write_other s c same] at cell
    exact before other entries flag cell

/-- After a step, the keys of dicts are keys that were hashable before. -/
theorem Step.keys (h : Step s t) (sound : s.Sound) :
    ∀ ref entries flag, t.cell ref = .dict entries flag → s.Keys entries := by
  have before (ref : Ref) (entries : List (Value × Value)) (flag : Bool)
      (cell : s.cell ref = .dict entries flag) : s.Keys entries := sound.keys cell
  cases h with
  | @alloc c fresh has =>
    intro ref entries flag cell
    rcases lt_size_or_eq_of_alloc (lt_size_of_isContainer (by rw [cell]; rfl)) with inside | rfl
    · rw [cell_alloc_other s c inside] at cell
      exact sound.keys cell
    · rw [cell_alloc_self] at cell
      subst cell
      obtain ⟨-, rfl | ⟨other, frozen, copied⟩⟩ := fresh
      · exact fun entry none => by cases none
      · exact sound.keys copied
  | list | enter => exact keys_of_write before fun _ _ same => by cases same
  | put cell hashable hasKey =>
    refine keys_of_write before fun _ _ same => ?_
    cases same
    exact (sound.keys cell).putEntry hasKey hashable
  | erase key cell =>
    refine keys_of_write before fun _ _ same => ?_
    cases same
    exact (sound.keys cell).eraseEntry key
  | clear =>
    refine keys_of_write before fun _ _ same => ?_
    cases same
    exact fun entry none => by cases none
  | freeze v =>
    intro ref entries flag cell
    rcases (freeze_flagged s v).cell ref with same | marked
    · exact sound.keys (same ▸ cell)
    · cases was : s.cell ref with
      | dict old frozen =>
        rw [cell, was] at marked
        cases marked
        exact sound.keys was
      | _ =>
        rw [cell, was] at marked
        cases marked

/-! ## Steps -/

theorem Step.sound (h : Step s t) (sound : s.Sound) : t.Sound where
  closed := h.closed sound.closed
  aged := h.aged sound.aged
  wrapped := h.wrapped sound.wrapped
  settled := h.settled sound.toWalkable sound.settled
  keyed := fun ref entries flag cell entry isEntry => by
    obtain ⟨has, hashable⟩ := h.keys sound ref entries flag cell entry isEntry
    rw [checkHashable_eq sound.aged h.evolves has]
    exact hashable

/-- A store that is sound stays so. -/
theorem Evolves.sound (h : s.Evolves t) (sound : s.Sound) : t.Sound := by
  induction h with
  | refl => exact sound
  | tail _ step ih => exact step.sound ih

end Interchange.Store
