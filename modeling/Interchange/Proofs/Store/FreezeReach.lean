import Interchange.Proofs.History

/-!
# What freezing reaches

After a value was frozen, exactly those cells are frozen that were before and those containers that
freezing reaches from it (`freeze_isFrozen_iff`). It reaches all that a value leads to but for the
tags of records, and what is behind them. So all that a value leads to is frozen for good exactly
when every container behind a tag was frozen before or is reached on another way.
-/

namespace Interchange

/-- What a cell leads to: elements, keys and values, the tag and the fields of a record, the members
of a module, and the dict of a mapping. -/
def Cell.children : Cell → List Value
  | mapping _ ref _ => [.object ref]
  | cell => cell.parts

namespace Store

/-- One value leads to another by the parts of its cell. -/
def LeadsBy (parts : Cell → List Value) (s : Store) (v w : Value) : Prop :=
  ∃ ref, v = .object ref ∧ w ∈ parts (s.cell ref)

/-- A value leads to another over any number of others. -/
def ReachesBy (parts : Cell → List Value) (s : Store) : Value → Value → Prop :=
  Relation.ReflTransGen (LeadsBy parts s)

variable {parts : Cell → List Value} {s t m : Store} {ref r : Ref} {v w : Value}

/-- Where cells have the same parts, values lead to the same values. -/
theorem ReachesBy.congr (same : ∀ ref, parts (t.cell ref) = parts (s.cell ref)) :
    t.ReachesBy parts v w ↔ s.ReachesBy parts v w := by
  have leads : LeadsBy parts t = LeadsBy parts s := by
    funext v w
    simp only [LeadsBy, same]
  rw [ReachesBy, ReachesBy, leads]

theorem Flagged.reachesBy_iff (h : Flagged s t) :
    t.ReachesBy Cell.freezeParts v w ↔ s.ReachesBy Cell.freezeParts v w :=
  ReachesBy.congr h.freezeParts_eq

/-! ## Freezing reaches no more -/

/-- What a mark or what is left of it leads to, the cell leads to. -/
theorem Marks.reaches {gray : List Ref} {left : List Value} (h : Marks s ref m gray left) :
    (∀ r ∈ gray, s.ReachesBy Cell.freezeParts (.object ref) (.object r)) ∧
      ∀ v ∈ left, s.ReachesBy Cell.freezeParts (.object ref) v := by
  have first (r : Ref) (isGray : r ∈ gray) :
      s.ReachesBy Cell.freezeParts (.object ref) (.object r) := by
    rcases h.along r isGray with rfl | isPart
    · exact .refl
    · exact .single ⟨ref, rfl, isPart⟩
  refine ⟨first, fun v isLeft => ?_⟩
  obtain ⟨r, isGray, isPart⟩ := h.onward v isLeft
  exact (first r isGray).tail ⟨r, rfl, isPart⟩

/-- A flag that is set in the end was set before, or freezing has come to it. -/
theorem Freezes.reaches {values : List Value} (run : Freezes values s t) (wrapped : s.Wrapped)
    (frozen : (t.cell r).isFrozen = true) : (s.cell r).isFrozen = true ∨
      ∃ v ∈ values, s.ReachesBy Cell.freezeParts v (.object r) := by
  induction run with
  | done => exact .inl frozen
  | scalar _ _ ih =>
    refine (ih wrapped frozen).imp id fun ⟨w, isRest, reaches⟩ => ?_
    exact ⟨w, List.mem_cons_of_mem _ isRest, reaches⟩
  | @object ref rest s m t below next ihBelow ihNext =>
    have wrapped' := mark_wrapped wrapped ref
    have flagged := mark_flagged s ref
    rcases ihNext (below.wrapped wrapped') frozen with before | ⟨w, isRest, reaches⟩
    · rcases ihBelow wrapped' before with marked | ⟨w, isLeft, reaches⟩
      · -- The flag was set by the mark, or before it.
        rcases mark_cases wrapped ref with ⟨-, same, -⟩ | ⟨-, same, -⟩ | ⟨gray, marks⟩
        · exact .inl (same ▸ marked)
        · exact .inl (same ▸ marked)
        · by_cases isGray : r ∈ gray
          · exact .inr ⟨_, List.mem_cons_self, marks.reaches.1 r isGray⟩
          · exact .inl (marks.others r isGray marked)
      · -- The walk came to it from what the mark had left.
        have reaches := flagged.reachesBy_iff.1 reaches
        rcases mark_cases wrapped ref with ⟨-, -, none⟩ | ⟨-, -, all⟩ | ⟨gray, marks⟩
        · rw [none] at isLeft
          cases isLeft
        · rw [all] at isLeft
          exact .inr ⟨_, List.mem_cons_self, .head ⟨ref, rfl, isLeft⟩ reaches⟩
        · exact .inr ⟨_, List.mem_cons_self, (marks.reaches.2 w isLeft).trans reaches⟩
    · have flagged := flagged.trans below.flagged
      exact .inr ⟨w, List.mem_cons_of_mem _ isRest, flagged.reachesBy_iff.1 reaches⟩

/-! ## Freezing reaches no less -/

/-- All that is behind what is tight is tight. -/
theorem Tight.reaches (tight : s.Tight v) (settled : s.Settled [])
    (reaches : s.ReachesBy Cell.freezeParts v w) : s.Tight w := by
  induction reaches with
  | refl => exact tight
  | tail _ leads ih =>
    obtain ⟨ref, rfl, isPart⟩ := leads
    cases ih with
    | scalar none => cases none
    | frozen frozen => exact settled ref List.not_mem_nil frozen _ isPart
    | plain _ parts => exact parts _ isPart

/-- Frozen are the cells that were before and the containers that freezing reaches. -/
theorem freeze_isFrozen_iff (sound : s.Sound) (v : Value) (r : Ref) :
    ((s.freeze v).cell r).isFrozen = true ↔ (s.cell r).isFrozen = true ∨
      (s.cell r).isContainer = true ∧ s.ReachesBy Cell.freezeParts v (.object r) := by
  have flagged := freeze_flagged s v
  constructor
  · intro frozen
    have run := freezes_freeze sound.toWalkable v
    refine (run.reaches sound.wrapped frozen).imp id fun ⟨w, isValue, reaches⟩ => ⟨?_, ?_⟩
    · rw [← flagged.isContainer_eq r]
      exact Cell.isContainer_of_isFrozen frozen
    · rwa [List.mem_singleton.1 isValue] at reaches
  · rintro (before | ⟨container, reaches⟩)
    · exact flagged.isFrozen before
    · obtain ⟨settled, tight⟩ := freeze_settled sound.toWalkable sound.settled v
      have isTight := tight.reaches settled (flagged.reachesBy_iff.2 reaches)
      exact isTight.isFrozen ((flagged.isContainer_eq r).trans container)

/-! ## Behind tags -/

theorem held_of_children {c : Cell} (h : v ∈ c.children) : v ∈ c.held := by
  cases c with
  | function | extension | proxy => cases h
  | list | tuple | set | dict | record | module | mapping => exact h

/-- A cell leads to what freezing goes on to, and a record to its tag. -/
theorem freezeParts_or_tag {c : Cell} (h : v ∈ c.children) :
    v ∈ c.freezeParts ∨ ∃ fields, c = .record v fields := by
  cases c with
  | record tag fields =>
    rcases List.mem_cons.1 h with rfl | isField
    · exact .inr ⟨fields, rfl⟩
    · exact .inl isField
  | function | extension | proxy => cases h
  | list | tuple | set | dict | module | mapping => exact .inl h

theorem tag_mem_children (tag : Value) (fields : List (String × Value)) :
    tag ∈ (Cell.record tag fields).children := List.mem_cons_self

theorem children_freeze (c : Cell) : c.freeze.children = c.children := by cases c <;> rfl

theorem Flagged.children_eq (h : Flagged s t) (ref : Ref) :
    (t.cell ref).children = (s.cell ref).children := h.congr children_freeze ref

/-- What a value leads to is reached by freezing, or it is behind the tag of a record. -/
theorem reaches_or_behind_tag (reaches : s.ReachesBy Cell.children v w) :
    s.ReachesBy Cell.freezeParts v w ∨ ∃ ref tag fields,
      s.ReachesBy Cell.children v (.object ref) ∧ s.cell ref = .record tag fields ∧
        s.ReachesBy Cell.children tag w := by
  induction reaches with
  | refl => exact .inl .refl
  | tail before leads ih =>
    rcases ih with reaches | ⟨ref, tag, fields, way, cell, behind⟩
    · obtain ⟨ref, rfl, isChild⟩ := leads
      rcases freezeParts_or_tag isChild with isPart | ⟨fields, cell⟩
      · exact .inl (reaches.tail ⟨ref, rfl, isPart⟩)
      · exact .inr ⟨ref, _, fields, before, cell, .refl⟩
    · exact .inr ⟨ref, tag, fields, way, cell, behind.tail leads⟩

/-- Every container behind the tag of a record that a value leads to is frozen already, or freezing
the value reaches it on another way. -/
def Covered (s : Store) (v : Value) : Prop :=
  ∀ ref tag fields r, s.ReachesBy Cell.children v (.object ref) →
    s.cell ref = .record tag fields → s.ReachesBy Cell.children tag (.object r) →
    (s.cell r).isContainer = true →
    (s.cell r).isFrozen = true ∨ s.ReachesBy Cell.freezeParts v (.object r)

/-- All containers that a value leads to are frozen with it exactly when those behind tags are
covered. -/
theorem frozen_children_iff (sound : s.Sound) (v : Value) :
    (∀ r, s.ReachesBy Cell.children v (.object r) → (s.cell r).isContainer = true →
      ((s.freeze v).cell r).isFrozen = true) ↔ s.Covered v := by
  constructor
  · intro all ref tag fields r way cell behind container
    have isChild : tag ∈ (s.cell ref).children := by
      rw [cell]
      exact tag_mem_children tag fields
    have reaches : s.ReachesBy Cell.children v (.object r) :=
      (way.tail ⟨ref, rfl, isChild⟩).trans behind
    exact ((freeze_isFrozen_iff sound v r).1 (all r reaches container)).imp id And.right
  · intro covered r reaches container
    refine (freeze_isFrozen_iff sound v r).2 ?_
    rcases reaches_or_behind_tag reaches with direct | ⟨ref, tag, fields, way, cell, behind⟩
    · exact .inr ⟨container, direct⟩
    · exact (covered ref tag fields r way cell behind container).imp id fun direct =>
        ⟨container, direct⟩

/-- A store has what its values lead to. -/
theorem Closed.has_of_reaches (closed : s.Closed) (has : s.Has v)
    (reaches : s.ReachesBy Cell.children v w) : s.Has w := by
  induction reaches with
  | refl => exact has
  | tail _ leads =>
    obtain ⟨ref, rfl, isChild⟩ := leads
    exact closed ref _ (held_of_children isChild)

/-- When the cells that a value leads to do not change, it leads to the same. -/
theorem reaches_iff_of_cells (same : ∀ r, s.ReachesBy Cell.children v (.object r) →
    (t.cell r).children = (s.cell r).children) :
    t.ReachesBy Cell.children v w ↔ s.ReachesBy Cell.children v w := by
  constructor
  · intro reaches
    induction reaches with
    | refl => exact .refl
    | tail _ leads ih =>
      obtain ⟨ref, rfl, isChild⟩ := leads
      rw [same ref ih] at isChild
      exact ih.tail ⟨ref, rfl, isChild⟩
  · intro reaches
    induction reaches with
    | refl => exact .refl
    | tail before leads ih =>
      obtain ⟨ref, rfl, isChild⟩ := leads
      rw [← same ref before] at isChild
      exact ih.tail ⟨ref, rfl, isChild⟩

/-- Freezing a value freezes all that it leads to exactly when the containers behind tags are
covered, and then nothing that it leads to changes in whatever happens later. -/
theorem Reachable.freeze_covers (reachable : s.Reachable) (has : s.Has v) :
    ((∀ r, s.ReachesBy Cell.children v (.object r) → (s.cell r).isContainer = true →
      ((s.freeze v).cell r).isFrozen = true) ↔ s.Covered v) ∧
    (s.Covered v → ∀ t, History (s.freeze v) t →
      (∀ r, s.ReachesBy Cell.children v (.object r) → t.cell r = (s.freeze v).cell r) ∧
      ∀ w, t.ReachesBy Cell.children v w ↔ s.ReachesBy Cell.children v w) := by
  have sound := reachable.sound
  refine ⟨frozen_children_iff sound v, fun covered t history => ?_⟩
  have flagged := freeze_flagged s v
  have evolves : (s.freeze v).Evolves t :=
    history.evolves (flagged.closed sound.closed)
  have cells (r : Ref) (reaches : s.ReachesBy Cell.children v (.object r)) :
      t.cell r = (s.freeze v).cell r := by
    cases container : (s.cell r).isContainer with
    | true =>
      exact evolves.cell_of_isFrozen ((frozen_children_iff sound v).2 covered r reaches container)
    | false =>
      have inside := has_object.1 (sound.closed.has_of_reaches has reaches)
      exact evolves.cell_of_not_container (flagged.size_eq.symm ▸ inside)
        ((flagged.isContainer_eq r).trans container)
  refine ⟨cells, fun w => reaches_iff_of_cells fun r reaches => ?_⟩
  rw [cells r reaches, flagged.children_eq r]

/-- A list, and a record that it tags, with these fields. -/
def tagged (fields : List (String × Value)) : Store :=
  ((Action.newRecord (.object ⟨0⟩) fields).run.runOn ((Action.newList []).run.runOn empty).2).2

theorem reachable_tagged {fields : List (String × Value)}
    (has : ∀ v ∈ fields.map Prod.snd, v = .object ⟨0⟩) : (tagged fields).Reachable := by
  refine ⟨empty, rfl, .trans (m := ((Action.newList []).run.runOn empty).2) ?_ ?_⟩
  · exact .act _ ⟨fun _ none => (by cases none), fun _ same => by cases same⟩
  · refine .act _ ⟨fun v isOperand => ?_, fun _ same => by cases same⟩
    rcases List.mem_cons.1 isOperand with rfl | isField
    · exact has_object.2 Nat.zero_lt_one
    · rw [has v isField]
      exact has_object.2 Nat.zero_lt_one

/-- The list is its only tag. -/
theorem tag_of_tagged {fields others : List (String × Value)} {tag : Value}
    (cell : (tagged fields).cell ref = .record tag others) : tag = .object ⟨0⟩ := by
  obtain ⟨index⟩ := ref
  match index with
  | 0 =>
    rw [show (tagged fields).cell ⟨0⟩ = .list [] false from rfl] at cell
    cases cell
  | 1 =>
    rw [show (tagged fields).cell ⟨1⟩ = .record (.object ⟨0⟩) (Fields.ofEntries fields) from rfl]
      at cell
    cases cell
    rfl
  | index + 2 =>
    rw [cell_of_size_le (show (tagged fields).size ≤ index + 2 from Nat.le_add_left 2 index)]
      at cell
    cases cell

/-- A list that is a field of the record that it tags is frozen with the record, and for good. -/
theorem freeze_covers_field : (tagged [("field", .object ⟨0⟩)]).Reachable ∧
    (tagged [("field", .object ⟨0⟩)]).Has (.object ⟨1⟩) ∧
    ∀ t, History ((tagged [("field", .object ⟨0⟩)]).freeze (.object ⟨1⟩)) t →
      t.cell ⟨0⟩ = .list [] true := by
  have reachable : (tagged [("field", .object ⟨0⟩)]).Reachable :=
    reachable_tagged fun v isField => List.mem_singleton.1 isField
  have has : (tagged [("field", .object ⟨0⟩)]).Has (.object ⟨1⟩) := has_object.2 Nat.one_lt_two
  have direct : (tagged [("field", .object ⟨0⟩)]).ReachesBy Cell.freezeParts (.object ⟨1⟩)
      (.object ⟨0⟩) := .single ⟨⟨1⟩, rfl, List.mem_cons_self⟩
  have covered : (tagged [("field", .object ⟨0⟩)]).Covered (.object ⟨1⟩) := by
    intro ref tag fields r _ cell behind _
    rw [tag_of_tagged cell] at behind
    right
    rcases Relation.ReflTransGen.cases_head behind with same | ⟨w, ⟨ref, same, isChild⟩, -⟩
    · rw [← same]
      exact direct
    · cases same
      cases isChild
  refine ⟨reachable, has, fun t history => ?_⟩
  obtain ⟨-, later⟩ := reachable.freeze_covers has
  rw [(later covered t history).1 ⟨0⟩ (.single ⟨⟨1⟩, rfl, List.mem_cons_self⟩)]
  rfl

/-- A list that only tags a record is not frozen with the record, and may change later. -/
theorem freeze_leaves_tag : (tagged []).Reachable ∧
    (tagged []).ReachesBy Cell.children (.object ⟨1⟩) (.object ⟨0⟩) ∧
    ((tagged []).cell ⟨0⟩).isContainer = true ∧
    (((tagged []).freeze (.object ⟨1⟩)).cell ⟨0⟩).isFrozen = false ∧
    ∃ t, History ((tagged []).freeze (.object ⟨1⟩)) t ∧ t.cell ⟨0⟩ = .list [.nothing] false := by
  refine ⟨reachable_tagged fun _ none => (by cases none), .single ⟨⟨1⟩, rfl, List.mem_cons_self⟩,
    rfl, rfl, _, .act (.push ⟨0⟩ .nothing) ⟨fun v isOperand => ?_, fun _ same => by cases same⟩, rfl⟩
  rw [List.mem_singleton.1 isOperand]
  exact has_of_scalar rfl

end Store
end Interchange
