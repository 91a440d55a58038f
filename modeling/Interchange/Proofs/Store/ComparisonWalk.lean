import Mathlib.Data.Finset.Prod
import Interchange.Proofs.Store.FreezeReach
import Interchange.Proofs.Store.Steady
import Interchange.Proofs.Store.Walk

/-!
# Comparisons as walks

A comparison carries the pairs of objects that it is inside of, but looks up a key in another
comparison, which is inside of none. So it is a walk that starts afresh (`Store.comparison`), and it can
only have no end where each of its values leads to a dict or a set that has a key which leads back there
(`Store.leadsBack_of_endless`).
-/

namespace Interchange

namespace Cell

variable {c : Cell} {v : Value}

/-- What a comparison goes on to or looks up: all parts but the members of a module. -/
def weighed : Cell → List Value
  | module _ _ => []
  | cell => cell.parts

theorem part_of_weighed (weighed : v ∈ c.weighed) : v ∈ c.parts := by
  cases c with
  | module => cases weighed
  | _ => exact weighed

theorem weighed_of_key (isKey : v ∈ c.keys) : v ∈ c.weighed := by
  cases c with
  | set => exact isKey
  | dict entries =>
    obtain ⟨entry, isEntry, rfl⟩ := List.mem_map.1 isKey
    exact Store.mem_entryParts.2 ⟨entry, isEntry, .inl rfl⟩
  | _ => cases isKey

theorem weighed_of_compared (compared : v ∈ c.compared) : v ∈ c.weighed := by
  cases c <;> first | exact compared | cases compared

/-- What is weighed of a cell that is no list, set or dict, it is compared by. -/
theorem compared_of_weighed (plain : c.isCollection = false) (weighed : v ∈ c.weighed) :
    v ∈ c.compared := by
  cases c with
  | tuple | record => exact weighed
  | list | set | dict => cases plain
  | _ => cases weighed

end Cell

namespace Store

variable {s : Store} {v w : Value} {r q ref : Ref} {c d : Cell}
  {path : List (Ref × Ref)} {values : Value × Value} {pair : Ref × Ref}

/-- Opposite values are weighed in their cells. -/
theorem Opposite.weighed (opposite : s.Opposite v w c d) : v ∈ c.weighed ∧ w ∈ d.weighed := by
  cases opposite with
  | item isPair | member isPair => exact List.of_mem_zip isPair
  | value isEntry found =>
    obtain ⟨key, isOther, -⟩ := exists_of_lookup? found
    exact ⟨mem_entryParts.2 ⟨_, isEntry, .inr rfl⟩, mem_entryParts.2 ⟨_, isOther, .inr rfl⟩⟩
  | tag => exact ⟨List.mem_cons_self, List.mem_cons_self⟩
  | field isField found =>
    exact ⟨List.mem_cons_of_mem _ (List.mem_map_of_mem isField),
      List.mem_cons_of_mem _ (List.mem_map_of_mem (mem_of_lookup found))⟩

theorem lt_size_of_weighed (weighed : v ∈ (s.cell ref).weighed) : ref.index < s.size := by
  by_contra outside
  rw [cell_of_size_le (Nat.not_lt.1 outside)] at weighed
  cases weighed

/-- What a steady value leads to, where it is compared, is steady. -/
theorem Steady.reached (steady : s.Steady v) (reaches : s.ReachesBy Cell.weighed v w) :
    s.Steady w := by
  induction reaches with
  | refl => exact steady
  | tail _ leads ih =>
    obtain ⟨ref, rfl, weighed⟩ := leads
    exact ih.part (Cell.compared_of_weighed ih.isCollection weighed)

/-! ## The walk -/

/-- The comparison of two values. It goes into pairs of different objects, on to what is opposite in
them, and starts afresh to look up the keys of the one among those of the other. -/
def comparison (s : Store) : Walk (Value × Value) (Ref × Ref) where
  node?
    | (.object r, .object q) => if r = q then none else some (r, q)
    | _ => none
  inward pair values := s.Opposite values.1 values.2 (s.cell pair.1) (s.cell pair.2)
  afresh pair values := values.1 ∈ (s.cell pair.1).keys ∧ values.2 ∈ (s.cell pair.2).keys

theorem comparison_node?_objects (other : r ≠ q) :
    s.comparison.node? (.object r, .object q) = some (r, q) := if_neg other

theorem comparison_node?_eq_some (isNode : s.comparison.node? values = some pair) :
    values = (.object pair.1, .object pair.2) ∧ pair.1 ≠ pair.2 := by
  obtain ⟨v, w⟩ := values
  cases v with
  | object r =>
    cases w with
    | object q =>
      by_cases same : r = q
      · have none : s.comparison.node? (.object r, .object q) = none := if_pos same
        cases none.symm.trans isNode
      · cases (comparison_node?_objects same).symm.trans isNode
        exact ⟨rfl, same⟩
    | _ => cases isNode
  | _ => cases isNode

/-- What a comparison comes to from a pair is weighed in both cells. -/
theorem weighed_of_comparison
    (leads : s.comparison.inward pair values ∨ s.comparison.afresh pair values) :
    values.1 ∈ (s.cell pair.1).weighed ∧ values.2 ∈ (s.cell pair.2).weighed :=
  leads.elim Opposite.weighed fun keys => ⟨Cell.weighed_of_key keys.1, Cell.weighed_of_key keys.2⟩

/-- Each side of a comparison leads to what the comparison comes to. -/
theorem reaches_of_comesTo (comes : s.comparison.ComesTo values pair) :
    s.ReachesBy Cell.weighed values.1 (.object pair.1) ∧
      s.ReachesBy Cell.weighed values.2 (.object pair.2) := by
  obtain ⟨last, reaches, isNode⟩ := comes
  obtain ⟨rfl, -⟩ := comparison_node?_eq_some isNode
  induction reaches using Relation.ReflTransGen.head_induction_on with
  | refl => exact ⟨.refl, .refl⟩
  | head leads _ ih =>
    obtain ⟨between, isNode, leads⟩ := leads
    obtain ⟨rfl, -⟩ := comparison_node?_eq_some isNode
    obtain ⟨weighed, weighed'⟩ := weighed_of_comparison leads
    exact ⟨.head ⟨_, rfl, weighed⟩ ih.1, .head ⟨_, rfl, weighed'⟩ ih.2⟩

/-! ## Its end -/

/-- A path of pairs of cells, none twice, is no longer than there are pairs. -/
theorem path_length_le (once : path.Nodup)
    (inside : ∀ pair ∈ path, pair.1.index < s.size ∧ pair.2.index < s.size) :
    path.length ≤ s.size * s.size := by
  have injective : Function.Injective fun pair : Ref × Ref => (pair.1.index, pair.2.index) := by
    rintro ⟨⟨a⟩, ⟨b⟩⟩ ⟨⟨a'⟩, ⟨b'⟩⟩ same
    cases same
    rfl
  have card := Finset.card_le_card
    (s := (path.map fun pair => (pair.1.index, pair.2.index)).toFinset)
    (t := Finset.range s.size ×ˢ Finset.range s.size) fun pair isPair => by
      obtain ⟨refs, isPath, rfl⟩ := List.mem_map.1 (List.mem_toFinset.1 isPair)
      obtain ⟨first, second⟩ := inside refs isPath
      exact Finset.mem_product.2 ⟨Finset.mem_range.2 first, Finset.mem_range.2 second⟩
  rw [List.toFinset_card_of_nodup (once.map injective), List.length_map, Finset.card_product,
    Finset.card_range] at card
  exact card

theorem comparison_few (pairs : List (Ref × Ref)) (once : pairs.Nodup)
    (opens : ∀ pair ∈ pairs, s.comparison.Opens pair) : pairs.length ≤ s.size * s.size := by
  refine path_length_le once fun pair isPair => ?_
  obtain ⟨values, leads⟩ := opens pair isPair
  obtain ⟨weighed, weighed'⟩ := weighed_of_comparison leads
  exact ⟨lt_size_of_weighed weighed, lt_size_of_weighed weighed'⟩

theorem comparison_runs : s.comparison.Runs (fun depth path values => depth ≤ s.depthBound →
    s.equalWithin depth path values.1 values.2 ≠ none) (s.size * s.size) where
  leaf := fun {depth path values} leaf le => by
    obtain ⟨v, w⟩ := values
    by_cases scalar : v.identity? = none ∨ w.identity? = none
    · rw [equalWithin_scalar scalar]
      exact Option.some_ne_none _
    · obtain ⟨r, q, rfl, rfl⟩ := exists_objects scalar
      by_cases same : r = q
      · subst same
        rw [equalWithin_self]
        exact Option.some_ne_none _
      · cases (comparison_node?_objects same).symm.trans leaf
  node := fun {depth path values pair} isNode inward afresh le => by
    obtain ⟨rfl, other⟩ := comparison_node?_eq_some isNode
    obtain ⟨r, q⟩ := pair
    have le := Nat.le_of_succ_le le
    have found (v : Value) (isKey : v ∈ (s.cell r).keys) (w : Value) (isKey' : w ∈ (s.cell q).keys) :
        s.equalWithin depth [] v w ≠ none := afresh (v, w) ⟨isKey, isKey'⟩ le
    rw [equalWithin, if_neg other]
    cases met : path.contains (r, q) with
    | true =>
      rw [cellsEqual_met fun _ _ => some true]
      exact cellsEqual_ends (looks_equalWithin le) found fun _ _ _ => Option.some_ne_none _
    | false =>
      have fresh : (r, q) ∉ path := fun isPair => by
        rw [List.contains_iff_mem.2 isPair] at met
        cases met
      exact cellsEqual_ends (looks_equalWithin le) found fun v w opposite =>
        inward fresh (v, w) opposite le
  few := comparison_few

/-- A comparison ends in which no look-up comes back to itself. -/
theorem equal?_ends_of_straight (straight : s.comparison.Straight (v, w)) : s.equal? v w ≠ none :=
  straight.ends comparison_runs (Nat.le_refl _)

/-- A value leads to a dict or a set that has a key which leads back there. -/
def LeadsBack (s : Store) (v : Value) : Prop :=
  ∃ holder key, s.ReachesBy Cell.weighed v (.object holder) ∧ key ∈ (s.cell holder).keys ∧
    s.ReachesBy Cell.weighed key (.object holder)

/-- A comparison that has no end leads back on both sides. -/
theorem leadsBack_of_endless (none : s.equal? v w = none) : s.LeadsBack v ∧ s.LeadsBack w := by
  obtain ⟨pair, keys, comes, ⟨isKey, isKey'⟩, back⟩ :=
    Walk.not_straight_iff.1 fun straight => equal?_ends_of_straight straight none
  obtain ⟨reaches, reaches'⟩ := reaches_of_comesTo comes
  obtain ⟨keyBack, keyBack'⟩ := reaches_of_comesTo back
  exact ⟨⟨pair.1, keys.1, reaches, isKey, keyBack⟩, ⟨pair.2, keys.2, reaches', isKey', keyBack'⟩⟩

end Store
end Interchange
