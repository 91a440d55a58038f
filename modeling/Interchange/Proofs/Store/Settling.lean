import Mathlib.Data.Finset.Card
import Mathlib.Data.Finset.Range
import Mathlib.Data.Finset.Filter
import Interchange.Proofs.Store.Lasting

/-!
# Settling

Freezing stops at a flag that is set, so it is right only if what lies behind a flag is settled
already: from there on, every way ends at a scalar or comes to a flag (`Store.Tight`). A run of the
walk (`Store.Freezes`) breaks this for the cells that it is inside of and restores it when it leaves
them (`Freezes.settled`). So the cells that are left out are a parameter of the invariant
(`Store.Settled`). A run ends (`freezes_freezeWithin`): below a container it has fewer cells without
a flag before it, and below any other cell it starts from an older one; that bounds the depth.
-/

namespace Interchange

/-- What freezing goes on to from a cell. It leaves out the tag of a record. -/
def Cell.freezeParts : Cell → List Value
  | list items _ => items
  | tuple items => items
  | set items _ => items
  | dict entries _ => entryParts entries
  | record _ fields => fields.map Prod.snd
  | module _ members => members.map Prod.snd
  | function _ => []
  | mapping _ ref _ => [.object ref]
  | extension e => e.attributeValues
  | proxy _ => []

namespace Cell

variable {c : Cell} {v : Value}

@[simp]
theorem freezeParts_freeze (c : Cell) : c.freeze.freezeParts = c.freezeParts := by
  cases c <;> rfl

theorem held_of_freezeParts (h : v ∈ c.freezeParts) : v ∈ c.held := by
  cases c with
  | record => exact List.mem_cons_of_mem _ h
  | extension => exact List.mem_append_left _ h
  | function | proxy => cases h
  | list | tuple | set | dict | module | mapping => exact h

end Cell

namespace Store

/-- Every way that freezing takes from a value ends at a scalar or comes to a flag. -/
inductive Tight (s : Store) : Value → Prop
  | scalar {v : Value} (scalar : v.identity? = none) : Tight s v
  | frozen {ref : Ref} (frozen : (s.cell ref).isFrozen = true) : Tight s (.object ref)
  | plain {ref : Ref} (plain : (s.cell ref).isContainer = false)
      (parts : ∀ v ∈ (s.cell ref).freezeParts, Tight s v) : Tight s (.object ref)

/-- Behind every flag all is tight, but for the flags of some cells. -/
def Settled (s : Store) (gray : List Ref) : Prop :=
  ∀ ref, ref ∉ gray → (s.cell ref).isFrozen = true → ∀ v ∈ (s.cell ref).freezeParts, s.Tight v

/-- A mapping is over a dict, and when it is frozen so is the dict. -/
def Wrapped (s : Store) : Prop :=
  ∀ ref name dict frozen, s.cell ref = .mapping name dict frozen →
    ∃ entries flag, s.cell dict = .dict entries flag ∧ (frozen = true → flag = true)

variable {s t m : Store} {ref : Ref} {v : Value} {gray : List Ref}

theorem Flagged.freezeParts_eq (h : Flagged s t) (ref : Ref) :
    (t.cell ref).freezeParts = (s.cell ref).freezeParts := h.congr Cell.freezeParts_freeze ref

theorem Flagged.isContainer_eq (h : Flagged s t) (ref : Ref) :
    (t.cell ref).isContainer = (s.cell ref).isContainer := h.congr Cell.isContainer_freeze ref

theorem Flagged.isFrozen (h : Flagged s t) (frozen : (s.cell ref).isFrozen = true) :
    (t.cell ref).isFrozen = true := by
  rw [h.of_isFrozen frozen]
  exact frozen

theorem Flagged.cell_of_not_container (h : Flagged s t) (plain : (s.cell ref).isContainer = false) :
    t.cell ref = s.cell ref := by
  rcases h.cell ref with same | marked
  · exact same
  · rw [marked, Cell.freeze_of_not_container plain]

theorem Tight.isFrozen (tight : s.Tight (.object ref))
    (container : (s.cell ref).isContainer = true) : (s.cell ref).isFrozen = true := by
  cases tight with
  | scalar none => cases none
  | frozen frozen => exact frozen
  | plain plain _ =>
    rw [plain] at container
    cases container

/-- Flags make nothing less tight. -/
theorem Flagged.tight (h : Flagged s t) (tight : s.Tight v) : t.Tight v := by
  induction tight with
  | scalar scalar => exact .scalar scalar
  | frozen frozen => exact .frozen (h.isFrozen frozen)
  | @plain ref plain _ ih =>
    refine .plain ((h.isContainer_eq ref).trans plain) ?_
    rw [h.freezeParts_eq ref]
    exact ih

theorem Flagged.aged (h : Flagged s t) (aged : s.Aged) : t.Aged := by
  intro ref plain v held
  rw [h.isContainer_eq ref] at plain
  rw [h.cell_of_not_container plain] at held
  exact aged ref plain v held

/-! ## One mark -/

/-- A mark that sets the flags of some cells, with values left to go on to. -/
structure Marks (s : Store) (ref : Ref) (m : Store) (gray : List Ref) (left : List Value) :
    Prop where
  flagged : Flagged s m
  self : ref ∈ gray
  /-- The flags were not set before. -/
  before : ∀ r ∈ gray, (s.cell r).isContainer = true ∧ (s.cell r).isFrozen = false
  after : ∀ r ∈ gray, (m.cell r).isFrozen = true
  others : ∀ r, r ∉ gray → (m.cell r).isFrozen = true → (s.cell r).isFrozen = true
  /-- What the cells hold is left to go on to, or it has its flag already. -/
  parts : ∀ r ∈ gray, ∀ v ∈ (s.cell r).freezeParts,
    v ∈ left ∨ ∃ dict, v = .object dict ∧ (m.cell dict).isFrozen = true
  wraps : ∀ r ∈ gray, ∀ name dict frozen, s.cell r = .mapping name dict frozen →
    (m.cell dict).isFrozen = true
  /-- Freezing comes from the first cell to the others, and from those to what is left. -/
  along : ∀ r ∈ gray, r = ref ∨ .object r ∈ (s.cell ref).freezeParts
  onward : ∀ v ∈ left, ∃ r ∈ gray, v ∈ (s.cell r).freezeParts

/-- A container is marked on its own, when it holds all that is left to go on to. -/
theorem marks_self {left : List Value} (container : (s.cell ref).isContainer = true)
    (loose : (s.cell ref).isFrozen = false) (onward : ∀ v ∈ left, v ∈ (s.cell ref).freezeParts)
    (parts : ∀ v ∈ (s.cell ref).freezeParts, v ∈ left ∨
      ∃ dict, v = .object dict ∧ dict ≠ ref ∧ (s.cell dict).isFrozen = true)
    (wraps : ∀ name dict frozen, s.cell ref = .mapping name dict frozen →
      dict ≠ ref ∧ (s.cell dict).isFrozen = true) :
    Marks s ref (s.write ref (s.cell ref).freeze) [ref] left where
  flagged := flagged_write s ref
  self := List.mem_singleton.2 rfl
  before := fun r isGray => by
    rw [List.mem_singleton.1 isGray]
    exact ⟨container, loose⟩
  after := fun r isGray => by
    rw [List.mem_singleton.1 isGray, cell_write_self _ _ (lt_size_of_isContainer container)]
    exact Cell.isFrozen_freeze container
  others := fun r notGray frozen => by
    rwa [cell_write_other _ _ fun same => notGray (List.mem_singleton.2 same.symm)] at frozen
  parts := fun r isGray v isPart => by
    rw [List.mem_singleton.1 isGray] at isPart
    refine (parts v isPart).imp id fun ⟨dict, same, differ, frozen⟩ => ⟨dict, same, ?_⟩
    rwa [cell_write_other _ _ differ.symm]
  wraps := fun r isGray name dict frozen cell => by
    rw [List.mem_singleton.1 isGray] at cell
    obtain ⟨differ, under⟩ := wraps name dict frozen cell
    rwa [cell_write_other _ _ differ.symm]
  along := fun r isGray => .inl (List.mem_singleton.1 isGray)
  onward := fun v isLeft => ⟨ref, List.mem_singleton.2 rfl, onward v isLeft⟩

/-- A mapping is marked with its dict. -/
theorem marks_mapping {name : String} {dict : Ref} {entries : List (Value × Value)}
    (cell : s.cell ref = .mapping name dict false) (under : s.cell dict = .dict entries false) :
    Marks s ref ((s.write ref (.mapping name dict true)).write dict (.dict entries true))
      [ref, dict] (entryParts entries) := by
  have differ : ref ≠ dict := by
    intro same
    rw [← same, cell] at under
    cases under
  have inside : ref.index < s.size := lt_size_of_isContainer (by rw [cell]; rfl)
  have inside' : dict.index < s.size := lt_size_of_isContainer (by rw [under]; rfl)
  have mapping : ((s.write ref (.mapping name dict true)).write dict (.dict entries true)).cell ref =
      .mapping name dict true := by
    rw [cell_write_other _ _ differ.symm, cell_write_self _ _ inside]
  have behind : ((s.write ref (.mapping name dict true)).write dict (.dict entries true)).cell dict =
      .dict entries true := cell_write_self _ _ (by rwa [size_write])
  have gray {r : Ref} (isGray : r ∈ [ref, dict]) : r = ref ∨ r = dict := by
    simpa using isGray
  refine ⟨?_, List.mem_cons_self, fun r isGray => ?_, fun r isGray => ?_, fun r notGray frozen => ?_,
    fun r isGray v isPart => ?_, fun r isGray other under' frozen wrapping => ?_, fun r isGray => ?_,
    fun v isLeft => ?_⟩
  · have first : Flagged s (s.write ref (.mapping name dict true)) := flagged_write_of_cell cell
    refine first.trans (flagged_write_of_cell (c := .dict entries false) ?_)
    rw [cell_write_other _ _ differ, under]
  · rcases gray isGray with rfl | rfl
    · rw [cell]
      exact ⟨rfl, rfl⟩
    · rw [under]
      exact ⟨rfl, rfl⟩
  · rcases gray isGray with rfl | rfl
    · rw [mapping]
      rfl
    · rw [behind]
      rfl
  · rw [cell_write_other _ _ fun same => notGray (by simp [same]),
      cell_write_other _ _ fun same => notGray (by simp [same])] at frozen
    exact frozen
  · rcases gray isGray with rfl | rfl
    · rw [cell] at isPart
      exact .inr ⟨dict, List.mem_singleton.1 isPart, by rw [behind]; rfl⟩
    · rw [under] at isPart
      exact .inl isPart
  · rcases gray isGray with rfl | rfl
    · rw [cell] at wrapping
      cases wrapping
      rw [behind]
      rfl
    · rw [under] at wrapping
      cases wrapping
  · refine (gray isGray).imp id fun same => ?_
    rw [cell, same]
    exact List.mem_singleton.2 rfl
  · exact ⟨dict, by simp, by rwa [under]⟩

/-- A mark finds the flag set, or passes a cell without one, or sets flags. -/
theorem mark_cases (wrapped : s.Wrapped) (ref : Ref) :
    ((s.cell ref).isFrozen = true ∧ s.mark ref = s ∧ s.pending ref = []) ∨
    ((s.cell ref).isContainer = false ∧ s.mark ref = s ∧
      s.pending ref = (s.cell ref).freezeParts) ∨
    ∃ gray, Marks s ref (s.mark ref) gray (s.pending ref) := by
  have alone {c : Cell} (cell : s.cell ref = c) (container : c.isContainer = true)
      (loose : c.isFrozen = false) (direct : ∀ name dict frozen, c ≠ .mapping name dict frozen) :
      ∃ gray, Marks s ref (s.write ref c.freeze) gray c.freezeParts := by
    subst cell
    exact ⟨[ref], marks_self container loose (fun _ h => h) (fun _ h => .inl h)
      fun name dict frozen same => absurd same (direct name dict frozen)⟩
  unfold mark pending
  cases cell : s.cell ref with
  | list items frozen | set items frozen | dict entries frozen =>
    cases frozen with
    | true => exact .inl ⟨rfl, rfl, rfl⟩
    | false => exact .inr (.inr (alone cell rfl rfl fun _ _ _ same => by cases same))
  | mapping name dict frozen =>
    cases frozen with
    | true => exact .inl ⟨rfl, rfl, rfl⟩
    | false =>
      obtain ⟨entries, flag, under, -⟩ := wrapped ref name dict false cell
      have differ : ref ≠ dict := by
        intro same
        rw [← same, cell] at under
        cases under
      -- The dict is another cell, so it is found as it was before the first flag was set.
      right
      right
      simp only [cell_write_other s (.mapping name dict true) differ, under]
      cases flag with
      | true =>
        have behind : dict ≠ ref ∧ (s.cell dict).isFrozen = true :=
          ⟨differ.symm, by rw [under]; rfl⟩
        have only : Marks s ref (s.write ref (s.cell ref).freeze) [ref] [] := by
          refine marks_self (by rw [cell]; rfl) (by rw [cell]; rfl) (fun _ none => by cases none)
            (fun v isPart => ?_) fun other dict' frozen same => ?_
          · rw [cell] at isPart
            exact .inr ⟨dict, List.mem_singleton.1 isPart, behind⟩
          · rw [cell] at same
            cases same
            exact behind
        rw [cell] at only
        exact ⟨[ref], only⟩
      | false => exact ⟨[ref, dict], marks_mapping cell under⟩
  | extension e =>
    obtain ⟨_, _, _, _, attributes, _, _⟩ := e
    cases attributes <;> exact .inr (.inl ⟨rfl, rfl, rfl⟩)
  | tuple | record | module | function | proxy => exact .inr (.inl ⟨rfl, rfl, rfl⟩)

/-- A mark keeps the flags of mappings and of their dicts together. -/
theorem mark_wrapped (wrapped : s.Wrapped) (ref : Ref) : (s.mark ref).Wrapped := by
  rcases mark_cases wrapped ref with ⟨-, same, -⟩ | ⟨-, same, -⟩ | ⟨gray, marks⟩
  · rwa [same]
  · rwa [same]
  · intro r name dict frozen cell
    have flagged := marks.flagged
    obtain ⟨old, before⟩ : ∃ old, s.cell r = .mapping name dict old := by
      rcases flagged.cell r with same | marked
      · exact ⟨frozen, same ▸ cell⟩
      · rw [cell] at marked
        cases was : s.cell r with
        | mapping =>
          rw [was] at marked
          cases marked
          exact ⟨_, rfl⟩
        | _ =>
          rw [was] at marked
          cases marked
    obtain ⟨entries, flag, under, behind⟩ := wrapped r name dict old before
    obtain ⟨flag', after⟩ : ∃ flag', (s.mark ref).cell dict = .dict entries flag' := by
      rcases flagged.cell dict with same | marked
      · exact ⟨flag, same.trans under⟩
      · exact ⟨true, by rw [marked, under]; rfl⟩
    refine ⟨entries, flag', after, fun isFrozen => ?_⟩
    have frozen' : ((s.mark ref).cell dict).isFrozen = true := by
      by_cases isGray : r ∈ gray
      · exact marks.wraps r isGray name dict old before
      · refine flagged.isFrozen ?_
        have wasFrozen := marks.others r isGray (by rw [cell]; exact isFrozen)
        rw [before] at wasFrozen
        rw [under]
        exact behind wasFrozen
    rwa [after] at frozen'

theorem freezeWithin_wrapped (wrapped : s.Wrapped) (depth : Nat) (v : Value) :
    (freezeWithin depth v s).Wrapped :=
  freezeWithin_of_mark (fun s t => s.Wrapped → t.Wrapped) (fun _ h => h)
    (fun _ _ _ h h' => h' ∘ h) (fun _ ref h => mark_wrapped h ref) depth v s wrapped

/-! ## Depth -/

/-- The containers whose flags are not set. -/
def loose (s : Store) : Finset Nat :=
  (Finset.range s.size).filter fun index =>
    (s.cell ⟨index⟩).isContainer = true ∧ (s.cell ⟨index⟩).isFrozen = false

theorem mem_loose (ref : Ref) : ref.index ∈ s.loose ↔
    (s.cell ref).isContainer = true ∧ (s.cell ref).isFrozen = false := by
  unfold loose
  rw [Finset.mem_filter, Finset.mem_range]
  exact ⟨fun h => h.2, fun h => ⟨lt_size_of_isContainer h.1, h⟩⟩

theorem Flagged.loose_subset (h : Flagged s t) : t.loose ⊆ s.loose := by
  intro index isLoose
  have now := (mem_loose ⟨index⟩).1 isLoose
  refine (mem_loose ⟨index⟩).2 ⟨(h.isContainer_eq _).symm.trans now.1, ?_⟩
  refine Bool.eq_false_iff.2 fun frozen => ?_
  rw [h.isFrozen frozen] at now
  cases now.2

theorem Marks.loose_lt {left : List Value} (h : Marks s ref m gray left) :
    m.loose.card < s.loose.card := by
  refine Finset.card_lt_card ((Finset.ssubset_iff_of_subset h.flagged.loose_subset).2 ?_)
  refine ⟨ref.index, (mem_loose ref).2 (h.before ref h.self), fun still => ?_⟩
  have now := ((mem_loose ref).1 still).2
  rw [h.after ref h.self] at now
  cases now

theorem card_loose_le (s : Store) : s.loose.card ≤ s.size := by
  have le := Finset.card_filter_le (Finset.range s.size) fun index =>
    (s.cell ⟨index⟩).isContainer = true ∧ (s.cell ⟨index⟩).isFrozen = false
  rwa [Finset.card_range] at le

/-- There is depth enough below a mark, wherever the walk goes on. -/
theorem Marks.depth_le {left : List Value} {bound depth : Nat} (h : Marks s ref m gray left)
    (below : ref.index < bound) (enough : s.loose.card * (s.size + 1) + bound ≤ depth + 1) :
    m.loose.card * (m.size + 1) + m.size ≤ depth := by
  have fewer : (m.loose.card + 1) * (s.size + 1) ≤ s.loose.card * (s.size + 1) :=
    Nat.mul_le_mul_right _ h.loose_lt
  rw [Nat.succ_mul] at fewer
  rw [h.flagged.size_eq]
  generalize m.loose.card * (s.size + 1) = after at *
  generalize s.loose.card * (s.size + 1) = before at *
  omega

/-! ## The walk -/

/-- While the walk is inside of cells, these are left out. -/
theorem Marks.settled {left : List Value} {outer : List Ref} (h : Marks s ref m gray left)
    (settled : s.Settled outer) : m.Settled (gray ++ outer) := by
  intro r outside frozen v isPart
  have notGray : r ∉ gray := fun isGray => outside (List.mem_append_left _ isGray)
  have notOuter : r ∉ outer := fun isOuter => outside (List.mem_append_right _ isOuter)
  rw [h.flagged.freezeParts_eq r] at isPart
  exact h.flagged.tight (settled r notOuter (h.others r notGray frozen) v isPart)

/-- When the walk leaves cells, they are as tight as all others. -/
theorem Marks.release {left : List Value} {outer : List Ref} (h : Marks s ref m gray left)
    (later : Flagged m t) (settled : t.Settled (gray ++ outer)) (tight : ∀ v ∈ left, t.Tight v) :
    t.Settled outer := by
  intro r outside frozen v isPart
  by_cases isGray : r ∈ gray
  · rw [later.freezeParts_eq r, h.flagged.freezeParts_eq r] at isPart
    rcases h.parts r isGray v isPart with isLeft | ⟨dict, rfl, behind⟩
    · exact tight v isLeft
    · exact .frozen (later.isFrozen behind)
  · refine settled r (fun inner => ?_) frozen v isPart
    exact (List.mem_append.1 inner).elim isGray outside

/-- What the walk needs of a store beside the flags. -/
structure Walkable (s : Store) : Prop where
  closed : s.Closed
  aged : s.Aged
  wrapped : s.Wrapped

theorem Walkable.freezeWithin (h : s.Walkable) (depth : Nat) (v : Value) :
    (freezeWithin depth v s).Walkable :=
  have flagged := freezeWithin_flagged depth v s
  ⟨flagged.closed h.closed, flagged.aged h.aged, freezeWithin_wrapped h.wrapped depth v⟩

theorem Walkable.mark (h : s.Walkable) (ref : Ref) : (s.mark ref).Walkable :=
  have flagged := mark_flagged s ref
  ⟨flagged.closed h.closed, flagged.aged h.aged, mark_wrapped h.wrapped ref⟩

/-- A run of the walk without a bound on its depth. It takes values from left to right, and is done
with one when it is done with all that the mark of its cell has left. -/
inductive Freezes : List Value → Store → Store → Prop
  | done (s : Store) : Freezes [] s s
  | scalar {v : Value} {rest : List Value} {s t : Store} (scalar : v.identity? = none)
      (next : Freezes rest s t) : Freezes (v :: rest) s t
  | object {ref : Ref} {rest : List Value} {s m t : Store}
      (below : Freezes (s.pending ref) (s.mark ref) m) (next : Freezes rest m t) :
      Freezes (.object ref :: rest) s t

variable {values rest : List Value}

theorem Freezes.cons (run : Freezes [v] s m) (next : Freezes rest m t) :
    Freezes (v :: rest) s t := by
  cases run with
  | scalar scalar done =>
    cases done
    exact .scalar scalar next
  | object below done =>
    cases done
    exact .object below next

theorem Freezes.flagged (run : Freezes values s t) : Flagged s t := by
  induction run with
  | done s => exact .refl s
  | scalar _ _ ih => exact ih
  | object _ _ ihBelow ihNext => exact ((mark_flagged _ _).trans ihBelow).trans ihNext

theorem Freezes.wrapped (run : Freezes values s t) (wrapped : s.Wrapped) : t.Wrapped := by
  induction run with
  | done => exact wrapped
  | scalar _ _ ih => exact ih wrapped
  | object _ _ ihBelow ihNext => exact ihNext (ihBelow (mark_wrapped wrapped _))

/-- With depth enough, the walk runs to its end. -/
theorem freezes_freezeWithin {bound depth : Nat} (walkable : s.Walkable) (below : v.Below bound)
    (le : bound ≤ s.size) (enough : s.loose.card * (s.size + 1) + bound ≤ depth) :
    Freezes [v] s (freezeWithin depth v s) := by
  induction depth generalizing s v bound with
  | zero =>
    rw [freezeWithin_zero]
    refine .scalar ?_ (.done s)
    cases v with
    | object ref =>
      have := Value.below_object.1 below
      omega
    | _ => rfl
  | succ depth ih =>
    -- No flag is taken back on the way, so the depth stays enough for what is still left.
    have each {values : List Value} {s : Store} {bound : Nat} (walkable : s.Walkable)
        (below : ∀ v ∈ values, v.Below bound) (le : bound ≤ s.size)
        (enough : s.loose.card * (s.size + 1) + bound ≤ depth) :
        Freezes values s (freezeEach depth values s) := by
      induction values generalizing s with
      | nil => exact .done s
      | cons v rest next =>
        have flagged := freezeWithin_flagged depth v s
        have enough' : (freezeWithin depth v s).loose.card * ((freezeWithin depth v s).size + 1) +
            bound ≤ depth := by
          rw [flagged.size_eq]
          have fewer := Nat.mul_le_mul_right (s.size + 1) (Finset.card_le_card flagged.loose_subset)
          exact Nat.le_trans (Nat.add_le_add_right fewer bound) enough
        refine (ih walkable (below v List.mem_cons_self) le enough).cons ?_
        exact next (walkable.freezeWithin depth v)
          (fun w isRest => below w (List.mem_cons_of_mem _ isRest))
          (Nat.le_trans le (Nat.le_of_eq flagged.size_eq.symm)) enough'
    cases v with
    | object ref =>
      have inside := Value.below_object.1 below
      rw [freezeWithin_object]
      refine .object ?_ (.done _)
      rcases mark_cases walkable.wrapped ref with
        ⟨-, same, none⟩ | ⟨plain, same, parts⟩ | ⟨gray, marks⟩
      · rw [same, none]
        exact .done s
      · -- No flag is set, but the parts are older.
        rw [same, parts]
        have older (v : Value) (isPart : v ∈ (s.cell ref).freezeParts) : v.Below ref.index :=
          walkable.aged ref plain v (Cell.held_of_freezeParts isPart)
        exact each walkable older (by omega) (by omega)
      · -- One container fewer is without a flag, so the parts may be of any age.
        have has (v : Value) (isLeft : v ∈ s.pending ref) : v.Below (s.mark ref).size := by
          obtain ⟨r, -, isPart⟩ := marks.onward v isLeft
          rw [marks.flagged.size_eq]
          exact walkable.closed r v (Cell.held_of_freezeParts isPart)
        exact each (walkable.mark ref) has (Nat.le_refl _) (marks.depth_le inside enough)
    | nothing | bool | int | float | string | bytes | time => exact .scalar rfl (.done s)

/-- A run leaves its values tight, and behind the flags all stays tight. -/
theorem Freezes.settled (run : Freezes values s t) (wrapped : s.Wrapped)
    (settled : s.Settled gray) : t.Settled gray ∧ ∀ v ∈ values, t.Tight v := by
  induction run generalizing gray with
  | done => exact ⟨settled, nofun⟩
  | scalar scalar _ ih =>
    obtain ⟨settled', tight⟩ := ih wrapped settled
    exact ⟨settled', List.forall_mem_cons.2 ⟨.scalar scalar, tight⟩⟩
  | @object ref rest s m t below next ihBelow ihNext =>
    obtain ⟨settled', tight⟩ : m.Settled gray ∧ m.Tight (.object ref) := by
      have wrapped' := mark_wrapped wrapped ref
      have later := below.flagged
      rcases mark_cases wrapped ref with
        ⟨frozen, same, -⟩ | ⟨plain, same, parts⟩ | ⟨inner, marks⟩
      · -- The walk stops here, and the invariant says that it may.
        rw [same] at later
        exact ⟨(ihBelow wrapped' (same.symm ▸ settled)).1, .frozen (later.isFrozen frozen)⟩
      · rw [same] at later
        obtain ⟨settled', tight⟩ := ihBelow wrapped' (same.symm ▸ settled)
        refine ⟨settled', .plain ((later.isContainer_eq ref).trans plain) ?_⟩
        rwa [later.freezeParts_eq ref, ← parts]
      · obtain ⟨settled', tight⟩ := ihBelow wrapped' (marks.settled settled)
        exact ⟨marks.release later settled' tight,
          .frozen (later.isFrozen (marks.after ref marks.self))⟩
    obtain ⟨settled'', tightRest⟩ := ihNext (below.wrapped (mark_wrapped wrapped ref)) settled'
    -- Later flags keep tight what is.
    exact ⟨settled'', List.forall_mem_cons.2 ⟨next.flagged.tight tight, tightRest⟩⟩

/-- Where there is no cell, there is nothing to mark and nothing to go on to. -/
theorem mark_of_size_le (outside : s.size ≤ ref.index) : s.mark ref = s ∧ s.pending ref = [] := by
  unfold mark pending
  rw [cell_of_size_le outside]
  exact ⟨rfl, rfl⟩

/-- Between two flags a walk passes cells that never change, so the square of the store's size is
depth enough. -/
theorem freezes_freezeWithin_of_le {depth : Nat} (walkable : s.Walkable) (v : Value)
    (enough : (s.size + 2) * (s.size + 2) ≤ depth) : Freezes [v] s (freezeWithin depth v s) := by
  by_cases has : s.Has v
  · refine freezes_freezeWithin walkable has (Nat.le_refl _) (Nat.le_trans ?_ enough)
    calc s.loose.card * (s.size + 1) + s.size
        ≤ s.size * (s.size + 1) + (s.size + 1) :=
          Nat.add_le_add (Nat.mul_le_mul_right _ (card_loose_le s)) (Nat.le_succ _)
      _ = (s.size + 1) * (s.size + 1) := (Nat.succ_mul _ _).symm
      _ ≤ (s.size + 2) * (s.size + 2) := Nat.mul_le_mul (Nat.le_succ _) (Nat.le_succ _)
  · cases v with
    | object ref =>
      have outside : s.size ≤ ref.index := Nat.not_lt.1 fun inside => has (has_object.2 inside)
      obtain ⟨marks, none⟩ := mark_of_size_le outside
      obtain ⟨depth, rfl⟩ := Nat.exists_eq_succ_of_ne_zero
        (Nat.ne_of_gt (Nat.lt_of_lt_of_le (Nat.mul_pos (Nat.succ_pos _) (Nat.succ_pos _)) enough))
      rw [freezeWithin_object]
      refine .object ?_ (.done _)
      rw [none, marks]
      exact .done s
    | _ => exact absurd (has_of_scalar rfl) has

/-- Freezing a value runs to its end. -/
theorem freezes_freeze (walkable : s.Walkable) (v : Value) : Freezes [v] s (s.freeze v) :=
  freezes_freezeWithin_of_le walkable v (Nat.le_refl _)

/-- Freezing a value leaves it tight. -/
theorem freeze_settled (walkable : s.Walkable) (settled : s.Settled []) (v : Value) :
    (s.freeze v).Settled [] ∧ (s.freeze v).Tight v := by
  obtain ⟨settled', tight⟩ := (freezes_freeze walkable v).settled walkable.wrapped settled
  exact ⟨settled', tight v List.mem_cons_self⟩

end Store
end Interchange
