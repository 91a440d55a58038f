import Interchange.Proofs.Store.FreezeReach

/-!
# The exact effect of freezing

Freezing any value of a store in use ends, and what it does is exact (`Reachable.freeze_exact`): the
cells that it reaches get their flags, all others stay as they are, and no cell holds anything else
than before. Whether a way passes a flag that is set already makes no difference, since behind such a
flag all is frozen too. So freezing again finds nothing left to do (`Tight.freezes`).
-/

namespace Interchange.Store

variable {s t t' : Store} {ref r : Ref} {v : Value} {values : List Value}

/-! ## Runs end in one store -/

theorem Freezes.unique (run : Freezes values s t) (other : Freezes values s t') : t' = t := by
  induction run generalizing t' with
  | done =>
    cases other
    rfl
  | scalar scalar _ ih =>
    cases other with
    | scalar _ next => exact ih next
    | object => cases scalar
  | object _ _ ihBelow ihNext =>
    cases other with
    | scalar scalar => cases scalar
    | object below next =>
      cases ihBelow below
      exact ihNext next

/-- Freezing a value is what a run of the walk comes to. -/
theorem freezes_iff (walkable : s.Walkable) : Freezes [v] s t ↔ t = s.freeze v := by
  constructor
  · exact fun run => (freezes_freeze walkable v).unique run
  · rintro rfl
    exact freezes_freeze walkable v

/-- More depth makes no difference. -/
theorem freezeWithin_eq_freeze {depth : Nat} (walkable : s.Walkable)
    (enough : (s.size + 2) * (s.size + 2) ≤ depth) : freezeWithin depth v s = s.freeze v :=
  (freezes_iff walkable).1 (freezes_freezeWithin_of_le walkable v enough)

/-! ## What is tight stays as it is -/

theorem freezes_self (each : ∀ v ∈ values, Freezes [v] s s) : Freezes values s s := by
  induction values with
  | nil => exact .done s
  | cons v rest ih =>
    obtain ⟨first, others⟩ := List.forall_mem_cons.1 each
    exact first.cons (ih others)

theorem Tight.freezes (tight : s.Tight v) (wrapped : s.Wrapped) : Freezes [v] s s := by
  induction tight with
  | scalar scalar => exact .scalar scalar (.done s)
  | @frozen ref frozen =>
    refine .object ?_ (.done s)
    rcases mark_cases wrapped ref with ⟨-, same, none⟩ | ⟨plain, -, -⟩ | ⟨gray, marks⟩
    · rw [same, none]
      exact .done s
    · rw [Cell.isContainer_of_isFrozen frozen] at plain
      cases plain
    · rw [(marks.before ref marks.self).2] at frozen
      cases frozen
  | @plain ref plain _ ih =>
    refine .object ?_ (.done s)
    rcases mark_cases wrapped ref with ⟨frozen, -, -⟩ | ⟨-, same, parts⟩ | ⟨gray, marks⟩
    · rw [Cell.isContainer_of_isFrozen frozen] at plain
      cases plain
    · rw [same, parts]
      exact freezes_self ih
    · rw [(marks.before ref marks.self).1] at plain
      cases plain

/-- Freezing a value again changes nothing. -/
theorem freeze_freeze (sound : s.Sound) (v : Value) : (s.freeze v).freeze v = s.freeze v := by
  have walkable := sound.toWalkable.freezeWithin ((s.size + 2) * (s.size + 2)) v
  have tight := (freeze_settled sound.toWalkable sound.settled v).2
  exact ((freezes_iff walkable).1 (tight.freezes walkable.wrapped)).symm

/-! ## The effect, cell by cell -/

theorem cell_freeze_of_reaches (sound : s.Sound)
    (reaches : s.ReachesBy Cell.freezeParts v (.object r)) :
    (s.freeze v).cell r = (s.cell r).freeze := by
  have flagged := freeze_flagged s v
  cases container : (s.cell r).isContainer with
  | true =>
    have frozen := (freeze_isFrozen_iff sound v r).2 (.inr ⟨container, reaches⟩)
    rcases flagged.cell r with same | marked
    · rw [← same, Cell.freeze_of_isFrozen frozen]
    · exact marked
  | false => rw [flagged.cell_of_not_container container, Cell.freeze_of_not_container container]

theorem cell_freeze_of_not_reaches (sound : s.Sound)
    (apart : ¬ s.ReachesBy Cell.freezeParts v (.object r)) : (s.freeze v).cell r = s.cell r := by
  have flagged := freeze_flagged s v
  cases container : (s.cell r).isContainer with
  | true =>
    rcases flagged.cell r with same | marked
    · exact same
    · have frozen : ((s.freeze v).cell r).isFrozen = true := by
        rw [marked]
        exact Cell.isFrozen_freeze container
      rcases (freeze_isFrozen_iff sound v r).1 frozen with before | ⟨-, reaches⟩
      · exact flagged.of_isFrozen before
      · exact absurd reaches apart
  | false => exact flagged.cell_of_not_container container

/-- From any value of a store in use the walk ends, in one store, and no depth cuts it off. In that
store, the cells that freezing reaches from the value are those of before with their flags set, and
all others are as before. So frozen are the cells that were and the containers that are reached.
Freezing once more changes nothing. -/
theorem Reachable.freeze_exact (reachable : s.Reachable) (v : Value) :
    (∀ t, Freezes [v] s t ↔ t = s.freeze v) ∧
    (∀ depth, (s.size + 2) * (s.size + 2) ≤ depth → freezeWithin depth v s = s.freeze v) ∧
    (s.freeze v).size = s.size ∧
    (∀ r, s.ReachesBy Cell.freezeParts v (.object r) →
      (s.freeze v).cell r = (s.cell r).freeze) ∧
    (∀ r, ¬ s.ReachesBy Cell.freezeParts v (.object r) → (s.freeze v).cell r = s.cell r) ∧
    (∀ r, ((s.freeze v).cell r).isFrozen = true ↔ (s.cell r).isFrozen = true ∨
      (s.cell r).isContainer = true ∧ s.ReachesBy Cell.freezeParts v (.object r)) ∧
    (s.freeze v).freeze v = s.freeze v := by
  have sound := reachable.sound
  have walkable := sound.toWalkable
  refine ⟨fun t => freezes_iff walkable, fun depth => freezeWithin_eq_freeze walkable,
    (freeze_flagged s v).size_eq, ?_, ?_, ?_, ?_⟩
  · exact fun r => cell_freeze_of_reaches sound
  · exact fun r => cell_freeze_of_not_reaches sound
  · exact fun r => freeze_isFrozen_iff sound v r
  · exact freeze_freeze sound v

/-- A mapping over a dict that was frozen on its own, with a list and a tuple that hold each other; and
a list that holds the mapping and itself. -/
def ringed : Store :=
  empty.after [.newMapping "shared", .newList [], .newTuple [.object ⟨2⟩], .push ⟨2⟩ (.object ⟨3⟩),
    .insert ⟨0⟩ (.string "ring") (.object ⟨3⟩), .freeze (.object ⟨0⟩), .newList [.object ⟨1⟩],
    .push ⟨4⟩ (.object ⟨4⟩)]

theorem reachable_ringed : ringed.Reachable :=
  reachable_empty.after ⟨⟨nofun, nofun⟩, ⟨nofun, nofun⟩, ⟨by decide, nofun⟩, ⟨by decide, nofun⟩,
    ⟨by decide, nofun⟩, ⟨nofun, nofun⟩, ⟨by decide, nofun⟩, ⟨by decide, nofun⟩, trivial⟩

/-- The mapping was not frozen with its dict. It is with the list that holds it, and what is in the
dict is reached. -/
theorem freeze_exact_ringed : ringed.Reachable ∧
    ringed.cell ⟨1⟩ = .mapping "shared" ⟨0⟩ false ∧ (ringed.cell ⟨0⟩).isFrozen = true ∧
    (ringed.freeze (.object ⟨4⟩)).cell ⟨1⟩ = .mapping "shared" ⟨0⟩ true ∧
    (ringed.freeze (.object ⟨4⟩)).cell ⟨2⟩ = .list [.object ⟨3⟩] true ∧
    (ringed.freeze (.object ⟨4⟩)).freeze (.object ⟨4⟩) = ringed.freeze (.object ⟨4⟩) := by
  obtain ⟨-, -, -, reached, -, -, again⟩ := reachable_ringed.freeze_exact (.object ⟨4⟩)
  have mapping : ringed.ReachesBy Cell.freezeParts (.object ⟨4⟩) (.object ⟨1⟩) :=
    .single ⟨⟨4⟩, rfl, List.mem_cons_self⟩
  have dict : ringed.LeadsBy Cell.freezeParts (.object ⟨1⟩) (.object ⟨0⟩) :=
    ⟨⟨1⟩, rfl, List.mem_cons_self⟩
  have tuple : ringed.LeadsBy Cell.freezeParts (.object ⟨0⟩) (.object ⟨3⟩) :=
    ⟨⟨0⟩, rfl, List.mem_cons_of_mem _ List.mem_cons_self⟩
  have list : ringed.LeadsBy Cell.freezeParts (.object ⟨3⟩) (.object ⟨2⟩) :=
    ⟨⟨3⟩, rfl, List.mem_cons_self⟩
  refine ⟨reachable_ringed, rfl, rfl, reached ⟨1⟩ mapping, ?_, again⟩
  exact reached ⟨2⟩ (((mapping.tail dict).tail tuple).tail list)

end Interchange.Store
