import Mathlib.Tactic.Ring
import Interchange.Binary64

/-!
# The order of binary64 magnitudes

The units of a magnitude grow strictly with its rank (`unitsOfRank_strictMono`), so a finite value is
known by its units and its sign, and by its units alone unless it is zero
(`numEq_of_signedUnits`). Two floats that are the same integer are numerically equal. The rank of a
ratio depends on its value alone (`rankOfUnits_mul`), and the units of a rank have that rank
(`rankOfUnits_unitsOfRank`).
-/

namespace Interchange.Binary64

variable {x y : Binary64} {a b : Nat} {i : Int}

theorem unitsOfRank_of_lt (small : a < 2 * binadeSize) : unitsOfRank a = a := by
  rw [unitsOfRank, if_pos small]

/-- From the second binade on, the units follow from the place in the binade. -/
theorem unitsOfRank_of_le (large : binadeSize ≤ a) :
    unitsOfRank a = (binadeSize + a % binadeSize) * 2 ^ (a / binadeSize - 1) := by
  by_cases small : a < 2 * binadeSize
  · rw [unitsOfRank_of_lt small]
    simp only [binadeSize] at large small ⊢
    have binade : a / 0x10000000000000 = 1 := by omega
    rw [binade]
    omega
  · rw [unitsOfRank, if_neg small]
    rfl

theorem unitsOfRank_lt (less : a < b) : unitsOfRank a < unitsOfRank b := by
  by_cases small : b < 2 * binadeSize
  · rw [unitsOfRank_of_lt small, unitsOfRank_of_lt (by omega)]
    exact less
  · have large : binadeSize ≤ b := by omega
    rw [unitsOfRank_of_le large]
    by_cases low : a < binadeSize
    · rw [unitsOfRank_of_lt (by omega)]
      calc a < binadeSize := low
        _ ≤ binadeSize + b % binadeSize := Nat.le_add_right ..
        _ ≤ _ := Nat.le_mul_of_pos_right _ (Nat.two_pow_pos _)
    · rw [unitsOfRank_of_le (Nat.le_of_not_lt low)]
      have order : a / binadeSize ≤ b / binadeSize := Nat.div_le_div_right (Nat.le_of_lt less)
      rcases Nat.lt_or_eq_of_le order with earlier | same
      · -- A whole binade is below the next one.
        have first : 0 < a / binadeSize := Nat.div_pos (Nat.le_of_not_lt low) (by decide)
        have next : 2 ^ (a / binadeSize - 1 + 1) ≤ 2 ^ (b / binadeSize - 1) :=
          Nat.pow_le_pow_right (by decide) (by omega)
        have place : a % binadeSize < binadeSize := Nat.mod_lt a (by decide)
        calc (binadeSize + a % binadeSize) * 2 ^ (a / binadeSize - 1)
            < (2 * binadeSize) * 2 ^ (a / binadeSize - 1) :=
              Nat.mul_lt_mul_of_pos_right (by omega) (Nat.two_pow_pos _)
          _ = binadeSize * 2 ^ (a / binadeSize - 1 + 1) := by rw [Nat.pow_succ]; ring
          _ ≤ binadeSize * 2 ^ (b / binadeSize - 1) := Nat.mul_le_mul_left _ next
          _ ≤ _ := Nat.mul_le_mul_right _ (Nat.le_add_right ..)
      · have whole := Nat.div_add_mod a binadeSize
        have whole' := Nat.div_add_mod b binadeSize
        rw [same] at whole ⊢
        exact Nat.mul_lt_mul_of_pos_right (by omega) (Nat.two_pow_pos _)

/-- The units of a magnitude grow with its rank. -/
theorem unitsOfRank_strictMono : StrictMono unitsOfRank := fun _ _ => unitsOfRank_lt

theorem signedUnits_eq_zero {s : Bool} : signedUnits s a = 0 ↔ a = 0 := by
  have zero : unitsOfRank a = 0 ↔ a = 0 := by
    rw [← unitsOfRank_strictMono.injective.eq_iff (a := a), unitsOfRank_of_lt (a := 0) (by decide)]
  cases s <;> simp [signedUnits, zero]

/-- Finite values of the same units are numerically equal. -/
theorem numEq_of_signedUnits {s t : Bool} {a b : Fin infiniteRank}
    (same : signedUnits s a = signedUnits t b) : numEq (finite s a) (finite t b) = true := by
  by_cases zero : a.val = 0
  · have zero' : b.val = 0 := by
      rw [← signedUnits_eq_zero (s := t), ← same, signedUnits_eq_zero, zero]
    simp [numEq, zero, Fin.ext_iff, zero']
  · have units : unitsOfRank a = unitsOfRank b ∧ s = t := by
      have positive : 0 < unitsOfRank a := by
        have := unitsOfRank_lt (Nat.pos_of_ne_zero zero)
        omega
      cases s <;> cases t <;> simp only [signedUnits] at same <;>
        first | exact ⟨by simpa using same, rfl⟩ | (simp at same; omega)
    have rank : a = b := Fin.ext (unitsOfRank_strictMono.injective units.1)
    simp [numEq, rank, units.2]

theorem integer?_of_zero {s : Bool} {a : Fin infiniteRank} (zero : a.val = 0) :
    (finite s a).integer? = some 0 := by
  rw [integer?, signedUnits_eq_zero.2 zero, Int.zero_emod, Int.zero_ediv]
  rfl

theorem integer?_eq_of_numEq (same : numEq x y = true) : x.integer? = y.integer? := by
  cases x <;> cases y <;> simp only [numEq] at same <;> try cases same
  · rfl
  · next s a t b =>
    simp only [Bool.and_eq_true, beq_iff_eq, Bool.or_eq_true] at same
    obtain ⟨rfl, rfl | zero⟩ := same
    · rfl
    · rw [integer?_of_zero zero, integer?_of_zero zero]

/-- Two floats that are the same integer are numerically equal. -/
theorem numEq_of_integer? (h : x.integer? = some i) (h' : y.integer? = some i) :
    numEq x y = true := by
  cases x with
  | finite s a =>
    cases y with
    | finite t b =>
      simp only [integer?, Option.ite_none_right_eq_some, Option.some.injEq] at h h'
      refine numEq_of_signedUnits ?_
      rw [← Int.ediv_mul_cancel (Int.dvd_of_emod_eq_zero h.1),
        ← Int.ediv_mul_cancel (Int.dvd_of_emod_eq_zero h'.1), h.2, h'.2]
    | _ => cases h'
  | _ => cases h

/-- A float that is no integer is numerically equal only to itself. -/
theorem eq_of_numEq (same : numEq x y = true) (fraction : x.integer? = none) : x = y := by
  cases x <;> cases y <;> simp only [numEq] at same <;> try cases same
  · rw [beq_iff_eq.1 same]
  · next s a t b =>
    simp only [Bool.and_eq_true, beq_iff_eq, Bool.or_eq_true] at same
    obtain ⟨rfl, rfl | zero⟩ := same
    · rfl
    · rw [integer?_of_zero zero] at fraction
      cases fraction

theorem numEq_self (x : Binary64) (number : x.isNaN = false) : numEq x x = true := by
  cases x with
  | nan => cases number
  | infinity s => exact beq_self_eq_true s
  | finite s a => simp [numEq]

/-! ## Ranks of ratios -/

theorem roundDiv_mul {c : Nat} (positive : 0 < c) (num den : Nat) :
    roundDiv (num * c) (den * c) = roundDiv num den := by
  have less : (2 * (num % den) * c < den * c) = (2 * (num % den) < den) :=
    propext (Nat.mul_lt_mul_right positive)
  have more : (den * c < 2 * (num % den) * c) = (den < 2 * (num % den)) :=
    propext (Nat.mul_lt_mul_right positive)
  simp only [roundDiv, Nat.mul_div_mul_right _ _ positive, Nat.mul_mod_mul_right,
    ← Nat.mul_assoc, less, more]

/-- The rank depends on the ratio alone. -/
theorem rankOfUnits_mul {c : Nat} (positive : 0 < c) (num den : Nat) :
    rankOfUnits (num * c) (den * c) = rankOfUnits num den := by
  rw [rankOfUnits, rankOfUnits, Nat.mul_div_mul_right _ _ positive, Nat.mul_right_comm,
    roundDiv_mul positive]

theorem roundDiv_exact {c : Nat} (positive : 0 < c) (n : Nat) : roundDiv (n * c) c = n := by
  rw [roundDiv, Nat.mul_div_cancel _ positive, Nat.mul_mod_left]
  exact if_pos positive

/-- The units of a rank have that rank. -/
theorem rankOfUnits_unitsOfRank (rank : Nat) : rankOfUnits (unitsOfRank rank) 1 = rank := by
  by_cases small : rank < 2 * binadeSize
  · have low : rank.log2 - 52 = 0 := by
      have : rank.log2 < 53 := by
        by_cases zero : rank = 0
        · subst zero
          decide
        · exact (Nat.log2_lt zero).2 small
      omega
    rw [unitsOfRank_of_lt small, rankOfUnits, Nat.div_one, low]
    have := roundDiv_exact (c := 1) (by decide) rank
    simpa using this
  · have large : binadeSize ≤ rank := by
      simp only [binadeSize] at small ⊢
      omega
    have whole := Nat.div_add_mod rank binadeSize
    have place : rank % binadeSize < binadeSize := Nat.mod_lt _ (by decide)
    have first : 1 ≤ rank / binadeSize := Nat.div_pos large (by decide)
    rw [unitsOfRank_of_le large]
    generalize rank / binadeSize = binade at *
    generalize rank % binadeSize = rest at *
    have log : ((binadeSize + rest) * 2 ^ (binade - 1)).log2 = 52 + (binade - 1) := by
      have high : binadeSize + rest < 2 ^ 53 := by
        simp only [binadeSize] at place ⊢
        omega
      have low : 2 ^ 52 ≤ binadeSize + rest := Nat.le_add_right _ _
      have positive : (binadeSize + rest) * 2 ^ (binade - 1) ≠ 0 :=
        Nat.ne_of_gt (Nat.mul_pos (by simp only [binadeSize]; omega) (Nat.two_pow_pos _))
      refine Nat.le_antisymm (Nat.le_of_lt_succ ((Nat.log2_lt positive).2 ?_))
        ((Nat.le_log2 positive).2 ?_)
      · calc (binadeSize + rest) * 2 ^ (binade - 1) < 2 ^ 53 * 2 ^ (binade - 1) :=
              Nat.mul_lt_mul_of_pos_right high (Nat.two_pow_pos _)
          _ = 2 ^ (52 + (binade - 1)).succ := by rw [← Nat.pow_add]; congr 1; omega
      · rw [Nat.pow_add]
        exact Nat.mul_le_mul_right _ low
    rw [rankOfUnits, Nat.div_one, log, Nat.add_sub_cancel_left, Nat.one_mul]
    have exact := roundDiv_exact (Nat.two_pow_pos (binade - 1)) (binadeSize + rest)
    rw [show twoPow (binade - 1) = 2 ^ (binade - 1) from rfl, exact]
    obtain ⟨before, rfl⟩ := Nat.exists_eq_add_of_le first
    rw [Nat.add_sub_cancel_left, ← whole]
    ring

/-! ## Integers up to two to the 53 -/

theorem unitsOfRank_binade {binade rest : Nat} (place : rest < binadeSize) :
    unitsOfRank ((binade + 1) * binadeSize + rest) = (binadeSize + rest) * 2 ^ binade := by
  have size : 0 < binadeSize := by decide
  have quotient : ((binade + 1) * binadeSize + rest) / binadeSize = binade + 1 := by
    rw [Nat.mul_comm, Nat.mul_add_div size, Nat.div_eq_of_lt place, Nat.add_zero]
  have remainder : ((binade + 1) * binadeSize + rest) % binadeSize = rest := by
    rw [Nat.mul_comm, Nat.mul_add_mod, Nat.mod_eq_of_lt place]
  have large : binadeSize ≤ (binade + 1) * binadeSize + rest := by
    rw [Nat.add_mul, Nat.one_mul]
    omega
  rw [unitsOfRank_of_le large, quotient, remainder, Nat.add_sub_cancel]

/-- A number of no more than 53 digits has its leading one moved to where all magnitudes of a binade
have it. -/
theorem exists_binade {n e : Nat} (positive : n ≠ 0) (small : n ≤ 2 ^ 53) (deep : 52 ≤ e) :
    ∃ rest binade, rest < binadeSize ∧ binade ≤ e + 1 ∧
      (binadeSize + rest) * 2 ^ binade = n * twoPow e := by
  by_cases most : n = 2 ^ 53
  · subst most
    refine ⟨0, e + 1, by decide, Nat.le_refl _, ?_⟩
    rw [show binadeSize + 0 = 2 ^ 52 from rfl, show twoPow e = 2 ^ e from rfl, ← Nat.pow_add,
      ← Nat.pow_add]
    congr 1
    omega
  · have lower : 2 ^ n.log2 ≤ n := Nat.log2_self_le positive
    have upper : n < 2 ^ (n.log2 + 1) := Nat.lt_log2_self
    have digits : n.log2 ≤ 52 :=
      Nat.le_of_lt_succ ((Nat.log2_lt positive).2 (Nat.lt_of_le_of_ne small most))
    generalize n.log2 = k at lower upper digits
    have high : n * 2 ^ (52 - k) < 2 ^ 53 := by
      calc n * 2 ^ (52 - k) < 2 ^ (k + 1) * 2 ^ (52 - k) :=
            Nat.mul_lt_mul_of_pos_right upper (Nat.two_pow_pos _)
        _ = 2 ^ 53 := by rw [← Nat.pow_add]; congr 1; omega
    have low : 2 ^ 52 ≤ n * 2 ^ (52 - k) := by
      calc 2 ^ 52 = 2 ^ k * 2 ^ (52 - k) := by rw [← Nat.pow_add]; congr 1; omega
        _ ≤ n * 2 ^ (52 - k) := Nat.mul_le_mul_right _ lower
    refine ⟨n * 2 ^ (52 - k) - binadeSize, e - 52 + k, ?_, by omega, ?_⟩
    · simp only [binadeSize]
      omega
    · rw [Nat.add_sub_cancel' (by simpa using low), Nat.mul_assoc, ← Nat.pow_add]
      exact congrArg (n * 2 ^ ·) (by omega)

theorem unitsPerOne_eq : unitsPerOne = twoPow 1074 := by decide +kernel

theorem unitsPerOne_pos : 0 < unitsPerOne := by decide +kernel

/-- Up to `2 ^ 53`, every natural number of ones is a finite magnitude. -/
theorem exists_rank {n : Nat} (small : n ≤ 2 ^ 53) :
    ∃ rank, rank < infiniteRank ∧ unitsOfRank rank = n * unitsPerOne := by
  by_cases zero : n = 0
  · subst zero
    exact ⟨0, by decide, by rw [unitsOfRank_of_lt (by decide), Nat.zero_mul]⟩
  · rw [unitsPerOne_eq]
    obtain ⟨rest, binade, place, low, same⟩ := exists_binade (e := 1074) zero small (by decide)
    refine ⟨(binade + 1) * binadeSize + rest, ?_, by rw [unitsOfRank_binade place, same]⟩
    simp only [binadeSize, infiniteRank] at place ⊢
    omega

/-- Up to `2 ^ 53`, integers are floats exactly. -/
theorem integer?_ofInt {i : Int} (small : i.natAbs ≤ 2 ^ 53) : (ofInt i).integer? = some i := by
  obtain ⟨rank, finite, units⟩ := exists_rank small
  have nearest : ofInt i = .finite (decide (i < 0)) ⟨rank, finite⟩ := by
    rw [ofInt, ofRatio, ← units, rankOfUnits_unitsOfRank, ofRank, dif_pos finite]
  have signed : signedUnits (decide (i < 0)) rank = i * unitsPerOne := by
    rw [signedUnits, units, Nat.cast_mul]
    by_cases negative : i < 0
    · rw [decide_eq_true negative, if_pos rfl, Int.ofNat_natAbs_of_nonpos (Int.le_of_lt negative),
        Int.neg_mul, Int.neg_neg]
    · rw [decide_eq_false negative, if_neg Bool.false_ne_true,
        Int.natAbs_of_nonneg (Int.not_lt.1 negative)]
  have positive : (unitsPerOne : Int) ≠ 0 := Int.ofNat_ne_zero.2 (Nat.ne_of_gt unitsPerOne_pos)
  rw [nearest, integer?]
  simp only [signed, Int.mul_emod_left, if_pos, Int.mul_ediv_cancel _ positive]

theorem integer?_negativeZero {h : 0 < infiniteRank} :
    (finite true ⟨0, h⟩).integer? = some 0 := by
  have units : signedUnits true 0 = 0 := by
    rw [signedUnits, unitsOfRank_of_lt (by decide)]
    rfl
  rw [integer?]
  simp only [units, Int.zero_emod, Int.zero_ediv, if_pos]

theorem negative_of_ofInt {i : Int} {negative : Bool} {rank : Fin infiniteRank}
    (same : ofInt i = .finite negative rank) : negative = decide (i < 0) := by
  rw [ofInt, ofRatio, ofRank] at same
  split at same
  · exact (finite.inj same).1.symm
  · cases same

end Interchange.Binary64
