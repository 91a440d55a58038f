import Interchange.Proofs.Store.Lasting
import Interchange.Proofs.Store.Lawful

/-!
# Steady values

A value is steady when its comparison looks into no list, set or dict (`Store.Steady`). Where one of
two values is steady, their comparison goes down in age. So it ends (`equal?_ends`), it finds the
same from the other side (`equals_comm`) and at any later time (`equals_eq`), whatever becomes of the
other value. Among steady values, equality is lawful (`lawful_steady`).
-/

namespace Interchange

namespace Cell

variable {c d : Cell}

/-- Is it a list, a set or a dict? -/
def isCollection : Cell → Bool
  | list _ _ => true
  | set _ _ => true
  | dict _ _ => true
  | _ => false

theorem keys_of_not_collection (plain : c.isCollection = false) : c.keys = [] := by
  cases c <;> first | rfl | cases plain

theorem isCollection_of_not_container (plain : c.isContainer = false) : c.isCollection = false := by
  cases c <;> first | rfl | cases plain

theorem compared_of_container (container : c.isContainer = true) : c.compared = [] := by
  cases c <;> first | rfl | cases container

theorem Continues.isCollection_eq (h : c.Continues d) : d.isCollection = c.isCollection := by
  rcases continues_iff.1 h with rfl | ⟨-, alike⟩
  · rfl
  · cases alike <;> rfl

theorem Continues.compared_eq (h : c.Continues d) : d.compared = c.compared := by
  rcases continues_iff.1 h with rfl | ⟨-, alike⟩
  · rfl
  · cases alike <;> rfl

end Cell

namespace Store

/-- A value that is compared without a look into a list, a set or a dict. -/
inductive Steady (s : Store) : Value → Prop
  | scalar {v : Value} (scalar : v.identity? = none) : Steady s v
  | plain {ref : Ref} (plain : (s.cell ref).isCollection = false)
      (parts : ∀ v ∈ (s.cell ref).compared, Steady s v) : Steady s (.object ref)

/-- One of two values is steady. -/
def EitherSteady (s : Store) (v w : Value) : Prop := s.Steady v ∨ s.Steady w

variable {s t : Store} {u v w : Value} {r q ref : Ref} {c d : Cell} {n depth : Nat}
  {path : List (Ref × Ref)}

theorem Lasts.steady (h : s.Lasts v) : s.Steady v := by
  induction h with
  | scalar scalar => exact .scalar scalar
  | plain plain _ ih => exact .plain (Cell.isCollection_of_not_container plain) ih

theorem Steady.isCollection (h : s.Steady (.object ref)) : (s.cell ref).isCollection = false := by
  cases h with
  | scalar scalar => cases scalar
  | plain plain => exact plain

theorem Steady.part (h : s.Steady (.object ref)) (part : v ∈ (s.cell ref).compared) :
    s.Steady v := by
  cases h with
  | scalar scalar => cases scalar
  | plain _ parts => exact parts v part

theorem EitherSteady.isCollection (h : s.EitherSteady (.object r) (.object q)) :
    (s.cell r).isCollection = false ∨ (s.cell q).isCollection = false :=
  h.imp Steady.isCollection Steady.isCollection

/-- What a cell is compared by is older than the cell. -/
theorem Aged.compared (aged : s.Aged) (part : v ∈ (s.cell ref).compared) : v.Below ref.index := by
  cases container : (s.cell ref).isContainer with
  | true =>
    rw [Cell.compared_of_container container] at part
    cases part
  | false => exact aged ref container v (Cell.held_of_compared part)

/-- A store has what the cells that it has are compared by. -/
theorem Aged.has_compared (aged : s.Aged) (inside : ref.index < s.size)
    (part : v ∈ (s.cell ref).compared) : s.Has v :=
  (aged.compared part).mono (Nat.le_of_lt inside)

theorem Evolves.aged (h : s.Evolves t) (aged : s.Aged) : t.Aged := by
  induction h with
  | refl => exact aged
  | tail _ step ih => exact step.aged ih

theorem Has.below_depthBound (has : s.Has v) : v.Below s.depthBound := by
  have size : s.size ≤ s.size * s.size + 2 :=
    Nat.le_trans (Nat.le_mul_self _) (Nat.le_add_right _ _)
  exact Value.Below.mono has (Nat.le_trans size (Nat.le_mul_self _))

/-! ## Pairs with a steady value -/

/-- Unless both cells are lists, sets or dicts, opposite values are parts by which they are
compared. -/
theorem Opposite.compared (opposite : s.Opposite v w c d)
    (plain : c.isCollection = false ∨ d.isCollection = false) :
    v ∈ c.compared ∧ w ∈ d.compared := by
  cases opposite with
  | item | value => rcases plain with plain | plain <;> cases plain
  | member isPair => exact List.of_mem_zip isPair
  | tag => exact ⟨List.mem_cons_self, List.mem_cons_self⟩
  | field isField found =>
    exact ⟨List.mem_cons_of_mem _ (List.mem_map_of_mem isField),
      List.mem_cons_of_mem _ (List.mem_map_of_mem (mem_of_lookup found))⟩

/-- Of opposite values in cells of which one is steady, one is steady. -/
theorem EitherSteady.part (h : s.EitherSteady (.object r) (.object q))
    (opposite : s.Opposite v w (s.cell r) (s.cell q)) : s.EitherSteady v w := by
  obtain ⟨part, part'⟩ := opposite.compared h.isCollection
  exact h.imp (fun steady => steady.part part) fun steady => steady.part part'

/-- A comparison with a steady value ends within a depth that is not less than its age. -/
theorem equalWithin_ends (aged : s.Aged) (le : depth ≤ s.depthBound)
    (h : s.Steady v ∧ v.Below depth ∨ s.Steady w ∧ w.Below depth) :
    s.equalWithin depth path v w ≠ none := by
  induction depth generalizing path v w with
  | zero =>
    have scalar {v : Value} (below : v.Below 0) : v.identity? = none := by
      cases v with
      | object ref => exact absurd (Value.below_object.1 below) (Nat.not_lt_zero _)
      | _ => rfl
    rw [equalWithin_scalar (h.imp (fun h => scalar h.2) fun h => scalar h.2)]
    exact nofun
  | succ depth ih =>
    by_cases scalar : v.identity? = none ∨ w.identity? = none
    · rw [equalWithin_scalar scalar]
      exact nofun
    · obtain ⟨r, q, rfl, rfl⟩ := exists_objects scalar
      by_cases other : r = q
      · subst other
        rw [equalWithin_self]
        exact nofun
      · have either : s.EitherSteady (.object r) (.object q) := h.imp And.left And.left
        rw [equalWithin, if_neg other]
        refine cellsEqual_ends (looks_equalWithin (Nat.le_of_succ_le le)) ?_ ?_
        · intro v isKey w isKey'
          rcases either.isCollection with plain | plain
          · rw [Cell.keys_of_not_collection plain] at isKey
            cases isKey
          · rw [Cell.keys_of_not_collection plain] at isKey'
            cases isKey'
        · intro v w opposite
          obtain ⟨part, part'⟩ := opposite.compared either.isCollection
          have down {ref : Ref} {v : Value} (below : (Value.object ref).Below (depth + 1))
              (part : v ∈ (s.cell ref).compared) : v.Below depth :=
            (aged.compared part).mono (Nat.le_of_lt_succ (Value.below_object.1 below))
          exact ih (Nat.le_of_succ_le le) (h.imp (fun h => ⟨h.1.part part, down h.2 part⟩)
            fun h => ⟨h.1.part part', down h.2 part'⟩)

theorem equal?_ends (aged : s.Aged) (has : s.Has v) (has' : s.Has w) (h : s.EitherSteady v w) :
    s.equal? v w ≠ none :=
  equalWithin_ends aged (Nat.le_refl _)
    (h.imp (fun steady => ⟨steady, has.below_depthBound⟩)
      fun steady => ⟨steady, has'.below_depthBound⟩)

/-- A look-up of a steady value ends. -/
theorem lookUpEnds_of_steady (aged : s.Aged) (has : s.Has v) (steady : s.Steady v)
    {keys : List Value} (keysHas : ∀ key ∈ keys, s.Has key) : s.lookUpEnds v keys = true :=
  lookUpEnds_of_ends fun key isKey => equal?_ends aged has (keysHas key isKey) (.inl steady)

/-- Cells of which one is no list, set or dict fit only when neither is a container. -/
theorem Fits.not_container (fits : s.Fits c d)
    (plain : c.isCollection = false ∨ d.isCollection = false) :
    c.isContainer = false ∧ d.isContainer = false := by
  cases fits with
  | list | set | dict => rcases plain with plain | plain <;> cases plain
  | tuple | record => exact ⟨rfl, rfl⟩

theorem Opposite.not_container (opposite : s.Opposite v w c d)
    (plain : c.isCollection = false ∨ d.isCollection = false) :
    c.isContainer = false ∧ d.isContainer = false := by
  cases opposite with
  | item | value => rcases plain with plain | plain <;> cases plain
  | member | tag | field => exact ⟨rfl, rfl⟩

/-- Differing from a steady value is symmetric. -/
theorem Differs.symm_of_steady (named : s.Named) (differs : s.Differs n v w)
    (h : s.EitherSteady v w) : s.Differs n w v := by
  -- Where there are no keys, nothing is asked of them.
  have lawful : s.Lawful fun _ => False := ⟨nofun, nofun⟩
  have none {c : Cell} (plain : c.isContainer = false) :
      c.keys.Pairwise s.Apart ∧ ∀ v ∈ c.keys, False := by
    rw [Cell.keys_of_not_collection (Cell.isCollection_of_not_container plain)]
    exact ⟨.nil, nofun⟩
  refine differs.symm s.EitherSteady (fun r q h fits => ?_) ?_ h
  · obtain ⟨plain, plain'⟩ := fits.not_container h.isCollection.symm
    exact fits.symm lawful (named q) (none plain).1 (none plain).2 (none plain').2
  · intro r q v w h opposite
    obtain ⟨plain, plain'⟩ := opposite.not_container h.isCollection
    exact ⟨opposite.symm lawful (named r) (none plain).1 (none plain).2 (none plain').2,
      h.part opposite⟩

/-- From both sides, a comparison with a steady value finds the same. -/
theorem equals_comm (aged : s.Aged) (named : s.Named) (has : s.Has v) (has' : s.Has w)
    (h : s.EitherSteady v w) : s.equals v w = s.equals w v := by
  rw [Bool.eq_iff_iff, equals_iff (equal?_ends aged has has' h),
    equals_iff (equal?_ends aged has' has h.symm)]
  exact ⟨fun alike n differs => alike n (differs.symm_of_steady named h.symm),
    fun alike n differs => alike n (differs.symm_of_steady named h)⟩

/-- Among steady values, equality is symmetric and transitive. -/
theorem lawful_steady (aged : s.Aged) (named : s.Named) :
    s.Lawful fun v => s.Has v ∧ s.Steady v where
  symm hv hw equal := by rwa [equals_comm aged named hw.1 hv.1 (.inl hw.2)]
  trans {u v w} hu hv hw first second := by
    rw [equals_iff (equal?_ends aged hu.1 hw.1 (.inl hu.2))]
    intro n differs
    rw [equals_iff (equal?_ends aged hu.1 hv.1 (.inl hu.2))] at first
    rw [equals_iff (equal?_ends aged hv.1 hw.1 (.inl hv.2))] at second
    have lawful : s.Lawful fun _ => False := ⟨nofun, nofun⟩
    have split := differs.split lawful s.Steady (u := v) ?_ ?_ hu.2 hv.2 hw.2
    · exact split.elim (first n) (second n)
    · intro r steady v isKey
      rw [Cell.keys_of_not_collection steady.isCollection] at isKey
      cases isKey
    · intro r q v w steady steady' opposite
      obtain ⟨part, part'⟩ := opposite.compared (.inl steady.isCollection)
      exact ⟨steady.part part, steady'.part part'⟩

/-! ## Later -/

/-- A value is steady as long as it is there. -/
theorem steady_iff (evolves : s.Evolves t) (aged : s.Aged) (has : s.Has v) :
    t.Steady v ↔ s.Steady v := by
  constructor
  · intro steady
    induction steady with
    | scalar scalar => exact .scalar scalar
    | @plain ref plain _ ih =>
      have inside := has_object.1 has
      have continues := evolves.continues inside
      refine .plain (continues.isCollection_eq ▸ plain) fun v isPart => ?_
      exact ih v (by rwa [continues.compared_eq]) (aged.has_compared inside isPart)
  · intro steady
    induction steady with
    | scalar scalar => exact .scalar scalar
    | @plain ref plain _ ih =>
      have inside := has_object.1 has
      have continues := evolves.continues inside
      refine .plain (continues.isCollection_eq.trans plain) fun v isPart => ?_
      rw [continues.compared_eq] at isPart
      exact ih v isPart (aged.has_compared inside isPart)

/-- Where no look-up is made, cells fit each other in any store. -/
theorem Fits.congr (fits : s.Fits c d) (plain : c.isCollection = false ∨ d.isCollection = false) :
    t.Fits c d := by
  cases fits with
  | list | set | dict => rcases plain with plain | plain <;> cases plain
  | tuple length => exact .tuple length
  | record length found => exact .record length found

theorem Opposite.congr (opposite : s.Opposite v w c d)
    (plain : c.isCollection = false ∨ d.isCollection = false) : t.Opposite v w c d := by
  cases opposite with
  | item | value => rcases plain with plain | plain <;> cases plain
  | member isPair => exact .member isPair
  | tag => exact .tag
  | field isField found => exact .field isField found

section Later

variable (evolves : s.Evolves t)
include evolves

/-- A cell beside which there is no list, set or dict is compared as before. -/
theorem EitherSteady.fits_iff (h : s.EitherSteady (.object r) (.object q))
    (has : s.Has (.object r)) (has' : s.Has (.object q)) :
    t.Fits (t.cell r) (t.cell q) ↔ s.Fits (s.cell r) (s.cell q) := by
  have continues := evolves.continues (has_object.1 has)
  have continues' := evolves.continues (has_object.1 has')
  constructor
  · intro fits
    have plain :=
      h.isCollection.imp continues.isCollection_eq.trans continues'.isCollection_eq.trans
    obtain ⟨still, still'⟩ := fits.not_container plain
    rw [continues.eq_of_not_container (continues.isContainer_eq ▸ still),
      continues'.eq_of_not_container (continues'.isContainer_eq ▸ still')] at fits
    exact fits.congr h.isCollection
  · intro fits
    obtain ⟨still, still'⟩ := fits.not_container h.isCollection
    rw [continues.eq_of_not_container still, continues'.eq_of_not_container still']
    exact fits.congr h.isCollection

theorem EitherSteady.opposite_iff (h : s.EitherSteady (.object r) (.object q))
    (has : s.Has (.object r)) (has' : s.Has (.object q)) :
    t.Opposite v w (t.cell r) (t.cell q) ↔ s.Opposite v w (s.cell r) (s.cell q) := by
  have continues := evolves.continues (has_object.1 has)
  have continues' := evolves.continues (has_object.1 has')
  constructor
  · intro opposite
    have plain :=
      h.isCollection.imp continues.isCollection_eq.trans continues'.isCollection_eq.trans
    obtain ⟨still, still'⟩ := opposite.not_container plain
    rw [continues.eq_of_not_container (continues.isContainer_eq ▸ still),
      continues'.eq_of_not_container (continues'.isContainer_eq ▸ still')] at opposite
    exact opposite.congr h.isCollection
  · intro opposite
    obtain ⟨still, still'⟩ := opposite.not_container h.isCollection
    rw [continues.eq_of_not_container still, continues'.eq_of_not_container still']
    exact opposite.congr h.isCollection

/-- What differs from a steady value does so at any later time, and did so before. -/
theorem differs_iff (aged : s.Aged) (has : s.Has v) (has' : s.Has w) (h : s.EitherSteady v w) :
    t.Differs n v w ↔ s.Differs n v w := by
  have down {r q : Ref} {v w : Value} (h : s.EitherSteady (.object r) (.object q))
      (has : s.Has (.object r)) (has' : s.Has (.object q))
      (opposite : s.Opposite v w (s.cell r) (s.cell q)) :
      s.Has v ∧ s.Has w ∧ s.EitherSteady v w := by
    obtain ⟨part, part'⟩ := opposite.compared h.isCollection
    exact ⟨aged.has_compared (has_object.1 has) part, aged.has_compared (has_object.1 has') part',
      h.part opposite⟩
  constructor
  · intro differs
    induction differs with
    | scalars scalar unequal => exact .scalars scalar unequal
    | cells other unfit => exact .cells other fun fits => unfit ((h.fits_iff evolves has has').2 fits)
    | parts other opposite _ ih =>
      have opposite := (h.opposite_iff evolves has has').1 opposite
      obtain ⟨hasPart, hasPart', either⟩ := down h has has' opposite
      exact .parts other opposite (ih hasPart hasPart' either)
  · intro differs
    induction differs with
    | scalars scalar unequal => exact .scalars scalar unequal
    | cells other unfit => exact .cells other fun fits => unfit ((h.fits_iff evolves has has').1 fits)
    | parts other opposite _ ih =>
      obtain ⟨hasPart, hasPart', either⟩ := down h has has' opposite
      exact .parts other ((h.opposite_iff evolves has has').2 opposite) (ih hasPart hasPart' either)

/-- Whether a value equals a steady one stays as it is. -/
theorem equals_eq (aged : s.Aged) (has : s.Has v) (has' : s.Has w)
    (h : s.EitherSteady v w) : t.equals v w = s.equals v w := by
  have later : t.EitherSteady v w :=
    h.imp (steady_iff evolves aged has).2 (steady_iff evolves aged has').2
  rw [Bool.eq_iff_iff,
    equals_iff (equal?_ends (evolves.aged aged) (evolves.has has) (evolves.has has') later),
    equals_iff (equal?_ends aged has has' h)]
  exact forall_congr' fun n => not_congr (differs_iff evolves aged has has' h)

/-- Entries have the same value under a steady key at any later time. -/
theorem lookup?_eq {entries : List (Value × Value)} (aged : s.Aged) (has : s.Has v)
    (steady : s.Steady v) (keys : ∀ entry ∈ entries, s.Has entry.1) :
    t.lookup? v entries = s.lookup? v entries := by
  have found : t.findKey? v entries = s.findKey? v entries :=
    List.find?_congr fun entry isEntry =>
      equals_eq evolves aged has (keys entry isEntry) (.inl steady)
  rw [lookup?, lookup?, found]

end Later
end Store
end Interchange
