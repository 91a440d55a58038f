import Interchange.Proofs.Binary64
import Interchange.Proofs.Store.Comparison

/-!
# Differences

Where two values are unequal, a walk along opposite parts leads from them to a difference: to
scalars that are unequal, or to two cells that do not fit each other (`Store.Differs`). A comparison
that ends finds two values equal exactly when there is no such walk (`equals_iff`). It takes a pair
of containers that it is inside of as equal, but that hides no difference: a shortest walk to one
does not come back to a pair where it has been.
-/

namespace Interchange

namespace Value

/-- A scalar as it is compared: a float that is an integer becomes that integer. -/
def numeral : Value → Value
  | float x => match x.integer? with
    | some i => int i
    | none => float x
  | v => v

end Value

namespace Store

variable {s : Store} {v w : Value} {r q : Ref} {n depth : Nat}
  {path : List (Ref × Ref)}

/-! ## Scalars -/

@[simp]
theorem numeral_float_of_some {x : Binary64} {i : Int} (h : x.integer? = some i) :
    Value.numeral (.float x) = .int i := by
  rw [Value.numeral, h]

@[simp]
theorem numeral_float_of_none {x : Binary64} (h : x.integer? = none) :
    Value.numeral (.float x) = .float x := by
  rw [Value.numeral, h]

theorem scalarEqual_floats {x y : Binary64} : scalarEqual (.float x) (.float y) = true ↔
    Value.numeral (.float x) = Value.numeral (.float y) := by
  rw [scalarEqual, Bool.or_eq_true, Bool.and_eq_true]
  constructor
  · rintro (same | ⟨nan, nan'⟩)
    · have integers := Binary64.integer?_eq_of_numEq same
      cases found : x.integer? with
      | some i => rw [numeral_float_of_some found, numeral_float_of_some (integers ▸ found)]
      | none => rw [Binary64.eq_of_numEq same found]
    · cases x <;> cases nan
      cases y <;> cases nan'
      rfl
  · intro same
    cases found : x.integer? with
    | some i =>
      rw [numeral_float_of_some found] at same
      cases found' : y.integer? with
      | some j =>
        rw [numeral_float_of_some found'] at same
        cases same
        exact .inl (Binary64.numEq_of_integer? found found')
      | none =>
        rw [numeral_float_of_none found'] at same
        cases same
    | none =>
      rw [numeral_float_of_none found] at same
      cases found' : y.integer? with
      | some j =>
        rw [numeral_float_of_some found'] at same
        cases same
      | none =>
        rw [numeral_float_of_none found'] at same
        cases same
        cases number : x.isNaN with
        | true => exact .inr ⟨rfl, rfl⟩
        | false => exact .inl (Binary64.numEq_self x number)

/-- A float is the numeral of an integer when it is that integer. -/
theorem numeral_eq_int_iff {x : Binary64} {i : Int} :
    Value.numeral (.float x) = .int i ↔ x.integer? = some i := by
  cases found : x.integer? with
  | some j => rw [numeral_float_of_some found]; simp
  | none => rw [numeral_float_of_none found]; simp

/-- The numeral of a float is a number. -/
theorem numeral_float_cases (x : Binary64) :
    (∃ i, Value.numeral (.float x) = .int i) ∨ Value.numeral (.float x) = .float x := by
  cases found : x.integer? with
  | some i => exact .inl ⟨i, numeral_float_of_some found⟩
  | none => exact .inr (numeral_float_of_none found)

/-- Scalars are equal when they are the same numeral. -/
theorem scalarEqual_iff :
    scalarEqual v w = true ↔ v.identity? = none ∧ v.numeral = w.numeral := by
  cases v with
  | object => cases w <;> simp [scalarEqual, Value.identity?]
  | float x =>
    refine Iff.trans ?_ (and_iff_right rfl).symm
    cases w with
    | float y => exact scalarEqual_floats
    | int i => exact beq_iff_eq.trans numeral_eq_int_iff.symm
    | _ =>
      rcases numeral_float_cases x with ⟨i, same⟩ | same <;> rw [same] <;>
        simp [scalarEqual, Value.numeral]
  | _ =>
    refine Iff.trans ?_ (and_iff_right rfl).symm
    cases w with
    | float y =>
      first
      | exact (beq_iff_eq.trans numeral_eq_int_iff.symm).trans eq_comm
      | rcases numeral_float_cases y with ⟨i, same⟩ | same <;> rw [same] <;>
          simp [scalarEqual, Value.numeral]
    | _ => simp [scalarEqual, Value.numeral]

@[simp]
theorem identity?_numeral (v : Value) : v.numeral.identity? = v.identity? := by
  cases v with
  | float x =>
    rcases numeral_float_cases x with ⟨i, same⟩ | same
    · rw [same]
      rfl
    · rw [same]
  | _ => rfl

/-- Equality of scalars is symmetric. -/
theorem scalarEqual_comm (v w : Value) : scalarEqual v w = scalarEqual w v := by
  have half {v w : Value} (equal : scalarEqual v w = true) : scalarEqual w v = true := by
    obtain ⟨scalar, same⟩ := scalarEqual_iff.1 equal
    refine scalarEqual_iff.2 ⟨?_, same.symm⟩
    rw [← identity?_numeral, ← same, identity?_numeral, scalar]
  exact Bool.eq_iff_iff.2 ⟨half, half⟩

theorem scalarEqual_object (r : Ref) (v : Value) : scalarEqual (.object r) v = false := by
  cases v <;> rfl

/-- A walk along opposite parts leads from two values to a difference in a number of steps. -/
inductive Differs (s : Store) : Nat → Value → Value → Prop
  | scalars {n : Nat} {v w : Value} (scalar : v.identity? = none ∨ w.identity? = none)
      (unequal : scalarEqual v w = false) : Differs s n v w
  | cells {n : Nat} {r q : Ref} (other : r ≠ q) (unfit : ¬ s.Fits (s.cell r) (s.cell q)) :
      Differs s n (.object r) (.object q)
  | parts {n : Nat} {r q : Ref} {v w : Value} (other : r ≠ q)
      (opposite : s.Opposite v w (s.cell r) (s.cell q)) (differs : Differs s n v w) :
      Differs s (n + 1) (.object r) (.object q)

/-! ## Walks -/

theorem equalWithin_scalar (scalar : v.identity? = none ∨ w.identity? = none) :
    s.equalWithin depth path v w = some (scalarEqual v w) := by
  cases v with
  | object r =>
    cases w with
    | object q => rcases scalar with h | h <;> cases h
    | _ => unfold equalWithin; rfl
  | _ => unfold equalWithin; rfl

/-- What is compared with a scalar is compared at once. -/
theorem equal?_scalar_ends (scalar : v.identity? = none ∨ w.identity? = none) :
    s.equal? v w ≠ none := by
  rw [equal?, equalWithin_scalar scalar]
  exact Option.some_ne_none _

/-- A look-up of a scalar ends. -/
theorem lookUpEnds_of_scalar (scalar : v.identity? = none) (keys : List Value) :
    s.lookUpEnds v keys = true :=
  lookUpEnds_of_ends fun _ _ => equal?_scalar_ends (.inl scalar)

/-- Values that are not compared as scalars are objects. -/
theorem exists_objects (h : ¬ (v.identity? = none ∨ w.identity? = none)) :
    ∃ r q, v = .object r ∧ w = .object q := by
  obtain ⟨some, some'⟩ := not_or.1 h
  obtain ⟨r, found⟩ := Option.ne_none_iff_exists'.1 some
  obtain ⟨q, found'⟩ := Option.ne_none_iff_exists'.1 some'
  exact ⟨r, q, Value.identity?_eq_some.1 found, Value.identity?_eq_some.1 found'⟩

theorem equalWithin_self : s.equalWithin depth path (.object r) (.object r) = some true := by
  cases depth <;> rw [equalWithin, if_pos rfl]

/-- Two cells are compared by a walk that may go on. -/
theorem exists_of_equalWithin (other : r ≠ q) {answer : Bool}
    (answers : s.equalWithin depth path (.object r) (.object q) = some answer) :
    ∃ rest, depth = rest + 1 ∧
      cellsEqual (s.equalWithin rest ((r, q) :: path)) (s.equalWithin rest [])
        (path.contains (r, q)) (s.cell r) (s.cell q) = some answer := by
  cases depth with
  | zero =>
    rw [equalWithin, if_neg other] at answers
    cases answers
  | succ rest =>
    rw [equalWithin, if_neg other] at answers
    exact ⟨rest, rfl, answers⟩

/-- How an answer comes about. -/
theorem equalWithin_cases {answer : Bool} (answers : s.equalWithin depth path v w = some answer) :
    ((v.identity? = none ∨ w.identity? = none) ∧ scalarEqual v w = answer) ∨
    (∃ r, v = .object r ∧ w = .object r ∧ answer = true) ∨
    ∃ r q rest, r ≠ q ∧ v = .object r ∧ w = .object q ∧ depth = rest + 1 ∧
      cellsEqual (s.equalWithin rest ((r, q) :: path)) (s.equalWithin rest [])
        (path.contains (r, q)) (s.cell r) (s.cell q) = some answer := by
  by_cases scalar : v.identity? = none ∨ w.identity? = none
  · rw [equalWithin_scalar scalar] at answers
    exact .inl ⟨scalar, Option.some.inj answers⟩
  · right
    obtain ⟨r, q, rfl, rfl⟩ := exists_objects scalar
    by_cases other : r = q
    · subst other
      rw [equalWithin_self] at answers
      exact .inl ⟨r, rfl, rfl, (Option.some.inj answers).symm⟩
    · obtain ⟨rest, more, cells⟩ := exists_of_equalWithin other answers
      exact .inr ⟨r, q, rest, other, rfl, rfl, more, cells⟩

/-- A walk that ends within a depth ends in the same way within a greater one. -/
theorem equalWithin_mono {more : Nat} (le : depth ≤ more) :
    Extends (s.equalWithin depth path) (s.equalWithin more path) := by
  induction depth generalizing more path with
  | zero =>
    intro v w answer answers
    rcases equalWithin_cases answers with ⟨scalar, same⟩ | ⟨r, rfl, rfl, same⟩ |
      ⟨_, _, rest, _, _, _, zero, _⟩
    · rw [equalWithin_scalar scalar, same]
    · rw [equalWithin_self, same]
    · cases zero
  | succ depth ih =>
    intro v w answer answers
    rcases equalWithin_cases answers with ⟨scalar, same⟩ | ⟨r, rfl, rfl, same⟩ |
      ⟨r, q, rest, other, rfl, rfl, succ, cells⟩
    · rw [equalWithin_scalar scalar, same]
    · rw [equalWithin_self, same]
    · cases succ
      obtain ⟨more, rfl⟩ := Nat.exists_eq_add_of_lt (Nat.lt_of_succ_le le)
      have le : depth ≤ depth + more := Nat.le_add_right depth more
      rw [equalWithin, if_neg other]
      exact cellsEqual_mono (ih le) (ih le) answer cells

/-- Within the bound, the answers of walks are those of equality. -/
theorem looks_equalWithin (le : depth ≤ s.depthBound) : s.Looks (s.equalWithin depth []) := by
  intro v w answer answers
  have found : s.equal? v w = some answer := equalWithin_mono le v w answer answers
  rw [equals, found]
  cases answer <;> rfl

/-- A walk that finds two values unequal comes to a difference. -/
theorem differs_of_equalWithin (le : depth ≤ s.depthBound)
    (unequal : s.equalWithin depth path v w = some false) : ∃ n, s.Differs n v w := by
  induction depth generalizing path v w with
  | zero =>
    rcases equalWithin_cases unequal with ⟨scalar, same⟩ | ⟨_, _, _, same⟩ |
      ⟨_, _, _, _, _, _, zero, _⟩
    · exact ⟨0, .scalars scalar same⟩
    · cases same
    · cases zero
  | succ depth ih =>
    rcases equalWithin_cases unequal with ⟨scalar, same⟩ | ⟨_, _, _, same⟩ |
      ⟨r, q, rest, other, rfl, rfl, succ, cells⟩
    · exact ⟨0, .scalars scalar same⟩
    · cases same
    · cases succ
      have le := Nat.le_of_succ_le le
      rcases (cellsEqual_verdict (looks_equalWithin le)).of_false (cellsEqual_of_met cells) with
        unfit | ⟨v, w, opposite, differ⟩
      · exact ⟨0, .cells other unfit⟩
      · obtain ⟨n, differs⟩ := ih le differ
        exact ⟨n + 1, .parts other opposite differs⟩

/-- A walk that finds two values equal although they differ is inside of a pair that differs, and
from which the way to a difference is no longer. -/
theorem exists_differs_on_path (le : depth ≤ s.depthBound)
    (equal : s.equalWithin depth path v w = some true) (differs : s.Differs n v w) :
    ∃ pair ∈ path, ∃ m ≤ n, s.Differs m (.object pair.1) (.object pair.2) := by
  induction n using Nat.strong_induction_on generalizing depth path v w with
  | _ n ih =>
    -- A pair that is met is inside; the others are compared part by part.
    have within {r q : Ref} (other : r ≠ q)
        (equal : s.equalWithin depth path (.object r) (.object q) = some true) :
        (r, q) ∈ path ∨ s.Fits (s.cell r) (s.cell q) ∧
          ∃ rest, depth = rest + 1 ∧ ∀ v w, s.Opposite v w (s.cell r) (s.cell q) →
            s.equalWithin rest ((r, q) :: path) v w = some true := by
      obtain ⟨rest, rfl, cells⟩ := exists_of_equalWithin other equal
      cases met : path.contains (r, q) with
      | true => exact .inl (List.contains_iff_mem.1 met)
      | false =>
        rw [met] at cells
        obtain ⟨fits, all⟩ :=
          (cellsEqual_verdict (looks_equalWithin (Nat.le_of_succ_le le))).of_true cells
        exact .inr ⟨fits, rest, rfl, all⟩
    cases differs with
    | scalars scalar unequal =>
      rw [equalWithin_scalar scalar, unequal] at equal
      cases equal
    | @cells _ r q other unfit =>
      rcases within other equal with isPair | ⟨fits, -⟩
      · exact ⟨(r, q), isPair, n, Nat.le_refl n, .cells other unfit⟩
      · exact absurd fits unfit
    | @parts m r q v w other opposite differs =>
      rcases within other equal with isPair | ⟨-, rest, rfl, all⟩
      · exact ⟨(r, q), isPair, m + 1, Nat.le_refl _, .parts other opposite differs⟩
      · obtain ⟨pair, isPair, k, short, differs⟩ :=
          ih m (Nat.lt_succ_self m) (Nat.le_of_succ_le le) (all v w opposite) differs
        rcases List.mem_cons.1 isPair with rfl | isPair
        · -- The way from the pair itself was not the shortest one.
          obtain ⟨pair, isPair, j, shorter, differs⟩ :=
            ih k (Nat.lt_succ_of_le short) le equal differs
          exact ⟨pair, isPair, j, by omega, differs⟩
        · exact ⟨pair, isPair, k, Nat.le_succ_of_le short, differs⟩

/-- Where the comparison of two values ends, they are equal when no walk leads to a difference. -/
theorem equals_iff (ends : s.equal? v w ≠ none) :
    s.equals v w = true ↔ ∀ n, ¬ s.Differs n v w := by
  cases found : s.equal? v w with
  | none => exact absurd found ends
  | some answer =>
    rw [equals, found]
    cases answer with
    | true =>
      refine ⟨fun _ n differs => ?_, fun _ => rfl⟩
      obtain ⟨pair, none, -⟩ := exists_differs_on_path (Nat.le_refl _) found differs
      cases none
    | false =>
      refine ⟨nofun, fun alike => ?_⟩
      obtain ⟨n, differs⟩ := differs_of_equalWithin (Nat.le_refl _) found
      exact absurd differs (alike n)

end Store
end Interchange
