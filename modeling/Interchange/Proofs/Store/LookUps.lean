import Interchange.Proofs.Store.Equivalence

/-!
# Comparisons that end

A comparison may have no end: a record under which a dict or a set has an entry is hashable whatever
its tag is, and the tag may lead back to the dict or the set (`Store.Entangled`). Then the look-up of
the record may come back to itself. A comparison ends when one of its values is not entangled
(`Reachable.equal?_outcome`).

The bound that is set to the depth is no restriction. Look-ups that end at all end one after another:
unless all have ended, another one does within the next depths that a walk inside of different pairs
may take (`Stable.answers`).
-/

namespace Interchange

namespace Store

variable {s : Store} {v w key : Value} {r q ref holder : Ref} {c d : Cell} {depth more stage : Nat}
  {path : List (Ref × Ref)} {answer other : Bool}

/-! ## The bound of the depth -/

theorem equalWithin_unique (answers : s.equalWithin depth path v w = some answer)
    (answers' : s.equalWithin more path v w = some other) : answer = other :=
  Option.some.inj ((equalWithin_mono (Nat.le_max_left depth more) v w answer answers).symm.trans
    (equalWithin_mono (Nat.le_max_right depth more) v w other answers'))

/-- A cell is compared at once with one that holds nothing. -/
theorem cellsEqual_blank_ends {same afresh : Value → Value → Option Bool} {met : Bool}
    (blank : c = .tuple [] ∨ d = .tuple []) : cellsEqual same afresh met c d ≠ none := by
  rcases blank with rfl | rfl
  · cases d with
    | tuple items => cases met <;> cases items <;> exact Option.some_ne_none _
    | _ => exact Option.some_ne_none _
  · cases c with
    | tuple items => cases met <;> cases items <;> exact Option.some_ne_none _
    | _ => exact Option.some_ne_none _

/-- Where one of two cells was never allocated, their comparison is short. -/
theorem equalWithin_outside (outside : ¬ (r.index < s.size ∧ q.index < s.size)) :
    s.equalWithin (depth + 1) path (.object r) (.object q) ≠ none := by
  by_cases other : r = q
  · rw [equalWithin, if_pos other]
    exact Option.some_ne_none _
  · rw [equalWithin, if_neg other]
    refine cellsEqual_blank_ends ((not_and_or.1 outside).imp ?_ ?_)
    all_goals exact fun outside => cell_of_size_le (Nat.not_lt.1 outside)

/-- A depth that a walk inside of different pairs of cells does not exceed between two look-ups. -/
def stride (s : Store) : Nat := s.size * s.size + 2

/-- Look-ups that end within one more stride end within the depth already. -/
def Stable (s : Store) (depth : Nat) : Prop :=
  ∀ r q, s.equalWithin (depth + s.stride) [] (.object r) (.object q) ≠ none →
    s.equalWithin depth [] (.object r) (.object q) ≠ none

theorem Stable.afresh (stable : s.Stable depth)
    (answers : s.equalWithin (depth + s.stride) [] v w = some answer) :
    s.equalWithin depth [] v w = some answer := by
  by_cases scalar : v.identity? = none ∨ w.identity? = none
  · rw [equalWithin_scalar scalar] at answers ⊢
    exact answers
  · obtain ⟨r, q, rfl, rfl⟩ := exists_objects scalar
    obtain ⟨other, found⟩ := Option.ne_none_iff_exists'.1
      (stable r q (by rw [answers]; exact Option.some_ne_none _))
    rw [found, equalWithin_unique found answers]

/-- From a stable depth, every comparison that ends in any depth ends within a stride. -/
theorem Stable.answers (stable : s.Stable stage) (once : path.Nodup)
    (inside : ∀ pair ∈ path, pair.1.index < s.size ∧ pair.2.index < s.size)
    (room : stage + s.stride ≤ more + path.length)
    (answers : s.equalWithin depth path v w = some answer) :
    s.equalWithin more path v w = some answer := by
  induction depth using Nat.strong_induction_on generalizing more path v w answer with
  | _ depth ih =>
    rcases equalWithin_cases answers with ⟨scalar, same⟩ | ⟨r, rfl, rfl, same⟩ |
      ⟨r, q, rest, other, rfl, rfl, rfl, cells⟩
    · rw [equalWithin_scalar scalar, same]
    · rw [equalWithin_self, same]
    · have most := path_length_le once inside
      obtain ⟨more, rfl⟩ : ∃ less, more = less + 1 := by
        refine Nat.exists_eq_succ_of_ne_zero ?_
        rw [stride] at room
        omega
      by_cases isInside : r.index < s.size ∧ q.index < s.size
      · -- Look-ups have ended by the stage, and there is room for another pair.
        have afresh : Extends (s.equalWithin rest []) (s.equalWithin more []) := by
          intro v w answer answers
          refine equalWithin_mono ?_ v w answer (stable.afresh
            (ih rest (Nat.lt_succ_self rest) .nil nofun (Nat.le_refl _) answers))
          rw [stride] at room
          omega
        rw [equalWithin, if_neg other]
        cases met : path.contains (r, q) with
        | true =>
          rw [met, cellsEqual_met (s.equalWithin more ((r, q) :: path))] at cells
          exact cellsEqual_mono (fun _ _ _ answers => answers) afresh answer cells
        | false =>
          rw [met] at cells
          refine cellsEqual_mono (fun v w answer answers => ?_) afresh answer cells
          refine ih rest (Nat.lt_succ_self rest) (List.nodup_cons.2 ⟨fun isPair => ?_, once⟩)
            (List.forall_mem_cons.2 ⟨isInside, inside⟩) ?_ answers
          · rw [List.contains_iff_mem.2 isPair] at met
            cases met
          · rw [List.length_cons]
            omega
      · obtain ⟨found, ends⟩ := Option.ne_none_iff_exists'.1 (equalWithin_outside isInside)
        rw [ends, equalWithin_unique ends answers]

/-- The pairs of cells whose comparison, when it starts afresh, ends within the depth. -/
def answered (s : Store) (depth : Nat) : Finset (Nat × Nat) :=
  (Finset.range s.size ×ˢ Finset.range s.size).filter fun pair =>
    s.equalWithin depth [] (.object ⟨pair.1⟩) (.object ⟨pair.2⟩) ≠ none

theorem answered_mono (le : depth ≤ more) : s.answered depth ⊆ s.answered more := by
  intro pair isPair
  obtain ⟨inside, ends⟩ := Finset.mem_filter.1 isPair
  obtain ⟨answer, answers⟩ := Option.ne_none_iff_exists'.1 ends
  refine Finset.mem_filter.2 ⟨inside, ?_⟩
  rw [equalWithin_mono le _ _ answer answers]
  exact Option.some_ne_none _

theorem card_answered_le (s : Store) (depth : Nat) : (s.answered depth).card ≤ s.size * s.size := by
  refine (Finset.card_filter_le _ _).trans ?_
  rw [Finset.card_product, Finset.card_range]

/-- A depth is stable when as many look-ups end within it as within one more stride. -/
theorem stable_of_card (same : (s.answered (depth + 1)).card =
    (s.answered (depth + 1 + s.stride)).card) : s.Stable (depth + 1) := by
  intro r q ends
  by_cases inside : r.index < s.size ∧ q.index < s.size
  · have all := Finset.eq_of_subset_of_card_le (answered_mono (Nat.le_add_right (depth + 1) s.stride))
      (Nat.le_of_eq same.symm)
    have isPair : (r.index, q.index) ∈ s.answered (depth + 1 + s.stride) :=
      Finset.mem_filter.2 ⟨Finset.mem_product.2 ⟨Finset.mem_range.2 inside.1,
        Finset.mem_range.2 inside.2⟩, ends⟩
    rw [← all] at isPair
    exact (Finset.mem_filter.1 isPair).2
  · exact equalWithin_outside inside

/-- There is a stable depth by a stride below the bound: there are not more pairs of cells than there
are strides for another one to end. -/
theorem exists_stable (s : Store) : ∃ stage, stage + s.stride ≤ s.depthBound ∧ s.Stable stage := by
  by_contra unstable
  have grows (strides : Nat) (le : strides ≤ s.size * s.size + 1) :
      strides ≤ (s.answered (strides * s.stride + 1)).card := by
    induction strides with
    | zero => exact Nat.zero_le _
    | succ strides ih =>
      have more : (strides + 1) * s.stride + 1 = strides * s.stride + 1 + s.stride := by
        rw [Nat.succ_mul, Nat.add_right_comm]
      have below : strides * s.stride + 1 + s.stride ≤ s.depthBound := by
        have most : (strides + 1) * s.stride ≤ (s.size * s.size + 1) * s.stride :=
          Nat.mul_le_mul_right _ le
        have bound : s.depthBound = (s.size * s.size + 1) * s.stride + s.stride := Nat.succ_mul _ _
        have positive : 2 ≤ s.stride := Nat.le_add_left 2 _
        omega
      have differ : (s.answered (strides * s.stride + 1)).card ≠
          (s.answered (strides * s.stride + 1 + s.stride)).card :=
        fun same => unstable ⟨_, below, stable_of_card same⟩
      have grow : (s.answered (strides * s.stride + 1)).card ≤
          (s.answered (strides * s.stride + 1 + s.stride)).card :=
        Finset.card_le_card (answered_mono (Nat.le_add_right _ _))
      have := ih (Nat.le_of_succ_le le)
      rw [more]
      omega
  have most := s.card_answered_le ((s.size * s.size + 1) * s.stride + 1)
  have := grows _ (Nat.le_refl _)
  omega

/-- A comparison has the answer that a walk of any depth finds. -/
theorem equal?_eq_some_iff :
    s.equal? v w = some answer ↔ ∃ depth, s.equalWithin depth [] v w = some answer := by
  refine ⟨fun answers => ⟨s.depthBound, answers⟩, fun ⟨depth, answers⟩ => ?_⟩
  obtain ⟨stage, room, stable⟩ := exists_stable s
  exact stable.answers .nil nofun room answers

/-! ## Keys that lead back -/

/-- A value leads to a record whose tag leads to a dict or a set, and a key or an element of that leads
back to the record. -/
def Entangled (s : Store) (v : Value) : Prop :=
  ∃ ref tag fields holder key, s.ReachesBy Cell.weighed v (.object ref) ∧
    s.cell ref = .record tag fields ∧ s.ReachesBy Cell.weighed tag (.object holder) ∧
    key ∈ (s.cell holder).keys ∧ s.ReachesBy Cell.weighed key (.object ref)

/-- What is hashable leads to a dict or a set only through the tag of a record. -/
theorem exists_tag_of_reaches (aged : s.Aged) (closed : s.Closed) (has : s.Has v)
    (hashable : s.checkHashable v = .ok ()) (reaches : s.ReachesBy Cell.weighed v (.object holder))
    (isKey : key ∈ (s.cell holder).keys) :
    ∃ ref tag fields, s.ReachesBy Cell.weighed v (.object ref) ∧ s.cell ref = .record tag fields ∧
      s.ReachesBy Cell.weighed tag (.object holder) := by
  induction reaches using Relation.ReflTransGen.head_induction_on with
  | refl =>
    obtain ⟨plain, -⟩ := hashable_parts aged (has_object.1 has) hashable
    rw [Cell.keys_of_not_collection (Cell.isCollection_of_not_container plain)] at isKey
    cases isKey
  | head leads reaches ih =>
    obtain ⟨ref, rfl, weighed⟩ := leads
    obtain ⟨plain, parts⟩ := hashable_parts aged (has_object.1 has) hashable
    have compared := Cell.compared_of_weighed (Cell.isCollection_of_not_container plain) weighed
    rcases parts _ compared with hashable | ⟨fields, cell⟩
    · have has := closed ref _ (Cell.held_of_compared compared)
      obtain ⟨other, tag, fields, there, cell, back⟩ := ih has hashable
      exact ⟨other, tag, fields, .head ⟨ref, rfl, weighed⟩ there, cell, back⟩
    · exact ⟨ref, _, fields, .refl, cell, reaches⟩

/-- A key that leads back does so through a record, since it is hashable. -/
theorem Lawkeeping.entangled (keeps : s.Lawkeeping) (leadsBack : s.LeadsBack v) : s.Entangled v := by
  obtain ⟨holder, key, reaches, isKey, back⟩ := leadsBack
  have has : s.Has key := keeps.closed holder key (Cell.held_of_keys isKey)
  obtain ⟨ref, tag, fields, there, cell, tagBack⟩ := exists_tag_of_reaches keeps.aged keeps.closed has
    (keeps.hashable holder key isKey) back isKey
  exact ⟨ref, tag, fields, holder, key,
    (reaches.tail ⟨holder, rfl, Cell.weighed_of_key isKey⟩).trans there, cell, tagBack, isKey, there⟩

/-- In a store in use, a comparison has the answer that a walk of any depth finds, and there is one
unless both values are entangled. -/
theorem Reachable.equal?_outcome (reachable : s.Reachable) (v w : Value) :
    (∀ answer, s.equal? v w = some answer ↔ ∃ depth, s.equalWithin depth [] v w = some answer) ∧
    (s.equal? v w = none → s.Entangled v ∧ s.Entangled w) := by
  refine ⟨fun answer => equal?_eq_some_iff, fun none => ?_⟩
  have keeps := reachable.lawkeeping
  obtain ⟨back, back'⟩ := leadsBack_of_endless none
  exact ⟨keeps.entangled back, keeps.entangled back'⟩

/-- Two sets, each with a record that is tagged by a list which holds the set. -/
def knotted : Store := empty.after
  [.newList [], .newList [], .newRecord (.object ⟨0⟩) [], .newRecord (.object ⟨1⟩) [],
    .newSet [.object ⟨2⟩], .newSet [.object ⟨3⟩], .push ⟨0⟩ (.object ⟨4⟩), .push ⟨1⟩ (.object ⟨5⟩)]

theorem reachable_knotted : knotted.Reachable :=
  reachable_empty.after ⟨⟨nofun, nofun⟩, ⟨nofun, nofun⟩, ⟨by decide, nofun⟩, ⟨by decide, nofun⟩,
    ⟨by decide, nofun⟩, ⟨by decide, nofun⟩, ⟨by decide, nofun⟩, ⟨by decide, nofun⟩, trivial⟩

theorem knotted_sets (none : knotted.equalWithin depth [] (.object ⟨2⟩) (.object ⟨3⟩) = none) :
    knotted.equalWithin (depth + 1) path (.object ⟨4⟩) (.object ⟨5⟩) = Option.none := by
  change itemsWithin (knotted.equalWithin depth []) [.object ⟨3⟩] [.object ⟨2⟩] = Option.none
  rw [itemsWithin, anyItem, none]
  rfl

/-- The records are compared by their tags, these by the sets, and the sets by a look-up of the one
record for the other. -/
theorem knotted_records : knotted.equalWithin depth [] (.object ⟨2⟩) (.object ⟨3⟩) = none := by
  induction depth using Nat.strong_induction_on with
  | _ depth ih =>
    match depth with
    | 0 | 1 | 2 => rfl
    | depth + 3 =>
      have sets : knotted.equalWithin (depth + 1) [(⟨0⟩, ⟨1⟩), (⟨2⟩, ⟨3⟩)] (.object ⟨4⟩) (.object ⟨5⟩) =
          none := knotted_sets (ih depth (by omega))
      have lists : knotted.equalWithin (depth + 2) [(⟨2⟩, ⟨3⟩)] (.object ⟨0⟩) (.object ⟨1⟩) = none := by
        change samePairs (knotted.equalWithin (depth + 1) [(⟨0⟩, ⟨1⟩), (⟨2⟩, ⟨3⟩)])
          [(.object ⟨4⟩, .object ⟨5⟩)] = none
        rw [samePairs, sets]
        rfl
      change (knotted.equalWithin (depth + 2) [(⟨2⟩, ⟨3⟩)] (.object ⟨0⟩) (.object ⟨1⟩) >>= _) = none
      rw [lists]
      rfl

theorem knotted_eq_none (depth : Nat) :
    knotted.equalWithin depth [] (.object ⟨4⟩) (.object ⟨5⟩) = none := by
  cases depth with
  | zero => rfl
  | succ depth => exact knotted_sets knotted_records

/-- The comparison of the sets has no end in any depth. -/
theorem endless_knotted : knotted.Reachable ∧
    knotted.Has (.object ⟨4⟩) ∧ knotted.Has (.object ⟨5⟩) ∧
    knotted.equal? (.object ⟨4⟩) (.object ⟨5⟩) = none ∧
    ∀ depth, knotted.equalWithin depth [] (.object ⟨4⟩) (.object ⟨5⟩) = none :=
  ⟨reachable_knotted, by decide, by decide, knotted_eq_none _, knotted_eq_none⟩

/-- Both sets are entangled. A set and a list are compared at once. -/
theorem entangled_knotted : knotted.Entangled (.object ⟨4⟩) ∧ knotted.Entangled (.object ⟨5⟩) ∧
    knotted.equal? (.object ⟨4⟩) (.object ⟨0⟩) = some false := by
  obtain ⟨-, entangled⟩ := reachable_knotted.equal?_outcome (.object ⟨4⟩) (.object ⟨5⟩)
  obtain ⟨first, second⟩ := entangled (knotted_eq_none _)
  obtain ⟨answers, -⟩ := reachable_knotted.equal?_outcome (.object ⟨4⟩) (.object ⟨0⟩)
  exact ⟨first, second, (answers false).2 ⟨1, rfl⟩⟩

end Store
end Interchange
