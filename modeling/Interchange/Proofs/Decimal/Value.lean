import Interchange.Decimal.Shortest
import Interchange.Proofs.Binary64

/-!
# Decimals and the numbers they read as

What a decimal reads as depends on its value and not on how it is split into digits and a power of
ten (`toBinary64_shift`). The shortest decimal of a finite number reads as that number
(`toBinary64_shortest`): a grid is taken only when it does, and if none were, the exact decimal is no
less right.
-/

namespace Interchange

namespace Decimal

open Binary64

variable {d : Decimal} {negative : Bool} {digits k : Nat} {exponent : Int}

/-! ## Values -/

/-- The digits of a natural with another one behind them. -/
theorem toDigits_shift (positive : 0 < digits) (k : Nat) :
    Nat.toDigits 10 (digits * 10 ^ k) = Nat.toDigits 10 digits ++ List.replicate k '0' := by
  induction k with
  | zero => simp
  | succ k ih =>
    have more := Nat.toDigits_append_toDigits (b := 10) (n := digits * 10 ^ k) (d := 0) (by decide)
      (Nat.mul_pos positive (Nat.pow_pos (by decide))) (by decide)
    rw [Nat.pow_succ, ← Nat.mul_assoc, Nat.mul_comm _ 10, ← Nat.add_zero (10 * _), ← more, ih,
      List.replicate_succ', List.append_assoc]
    rfl

theorem digitCount_shift (positive : 0 < digits) (k : Nat) :
    digitCount (digits * 10 ^ k) = digitCount digits + k := by
  rw [digitCount, toDigits_shift positive, List.length_append, List.length_replicate, digitCount]

/-- The rank of the magnitude that a decimal reads as, the greatest of all if it is infinite. -/
def rank (d : Decimal) : Nat :=
  let scale : Int := digitCount d.digits + d.exponent
  if d.digits = 0 ∨ scale < -330 then 0
  else if 311 < scale then infiniteRank
  else rankOfUnits (d.digits * 10 ^ d.exponent.toNat * unitsPerOne) (10 ^ (-d.exponent).toNat)

theorem toBinary64_eq (d : Decimal) : d.toBinary64 = ofRank d.negative d.rank := by
  unfold toBinary64 rank
  dsimp only
  split
  · rfl
  · split
    · rw [ofRank, dif_neg (Nat.lt_irrefl _)]
    · split
      · next whole =>
        have none : (-d.exponent).toNat = 0 := by omega
        rw [none, ofRatio]
        rfl
      · next fraction =>
        have none : d.exponent.toNat = 0 := by omega
        rw [none, ofRatio, Nat.pow_zero, Nat.mul_one]
        rfl

/-- Zeros may be moved between the digits and the power of ten. -/
theorem rank_shift (negative other : Bool) (digits k : Nat) (exponent : Int) :
    rank ⟨negative, digits * 10 ^ k, exponent - k⟩ = rank ⟨other, digits, exponent⟩ := by
  have tens : 0 < 10 ^ k := Nat.pow_pos (by decide)
  by_cases zero : digits = 0
  · subst zero
    simp [rank]
  · have nonzero : digits * 10 ^ k ≠ 0 := Nat.mul_ne_zero zero (Nat.ne_of_gt tens)
    have count := digitCount_shift (Nat.pos_of_ne_zero zero) k
    have scale : ((digitCount (digits * 10 ^ k) : Nat) : Int) + (exponent - k) =
        (digitCount digits : Nat) + exponent := by
      rw [count]
      omega
    -- What the denominator gains, the numerator gains, too.
    obtain ⟨c, den⟩ : ∃ c, (-(exponent - k)).toNat = (-exponent).toNat + c :=
      ⟨_, (Nat.add_sub_of_le (by omega)).symm⟩
    have num : k + (exponent - k).toNat = exponent.toNat + c := by omega
    simp only [rank, zero, nonzero, false_or, scale]
    refine if_congr Iff.rfl rfl (if_congr Iff.rfl rfl ?_)
    rw [den, Nat.pow_add, Nat.mul_assoc digits, ← Nat.pow_add, num, Nat.pow_add,
      ← Nat.mul_assoc digits, Nat.mul_right_comm, rankOfUnits_mul (Nat.pow_pos (by decide))]

theorem toBinary64_shift (negative : Bool) (digits k : Nat) (exponent : Int) :
    toBinary64 ⟨negative, digits * 10 ^ k, exponent - k⟩ =
      toBinary64 ⟨negative, digits, exponent⟩ := by
  rw [toBinary64_eq, toBinary64_eq, rank_shift negative negative]

/-- A decimal without its trailing zeros reads as before. -/
theorem toBinary64_strip (d : Decimal) : d.strip.toBinary64 = d.toBinary64 := by
  have none (d : Decimal) (zero : d.digits = 0) :
      toBinary64 { d with exponent := 0 } = d.toBinary64 := by
    rw [toBinary64_eq, toBinary64_eq, rank, rank, if_pos (.inl zero), if_pos (.inl zero)]
  have step (fuel : Nat) (d : Decimal) : (strip.go fuel d).toBinary64 = d.toBinary64 := by
    induction fuel generalizing d with
    | zero =>
      rw [strip.go]
      split
      · next zero => exact none d zero
      · rfl
    | succ fuel ih =>
      rw [strip.go]
      split
      · next zero => exact none d zero
      · split
        · next trailing =>
          rw [ih]
          have shifted := toBinary64_shift d.negative (d.digits / 10) 1 (d.exponent + 1)
          rw [← shifted, Nat.pow_one, Nat.div_mul_cancel (Nat.dvd_of_mod_eq_zero trailing),
            show d.exponent + 1 - (1 : Nat) = d.exponent by omega]
        · rfl
  exact step _ d

/-- Zero without trailing zeros has exponent zero. -/
theorem exponent_strip (d : Decimal) (zero : d.strip.digits = 0) : d.strip.exponent = 0 := by
  have step (fuel : Nat) (d : Decimal) (zero : (strip.go fuel d).digits = 0) :
      (strip.go fuel d).exponent = 0 := by
    induction fuel generalizing d with
    | zero =>
      rw [strip.go] at zero ⊢
      split
      · rfl
      · next nonzero =>
        rw [if_neg nonzero] at zero
        exact absurd zero nonzero
    | succ fuel ih =>
      rw [strip.go] at zero ⊢
      split
      · rfl
      · next nonzero =>
        rw [if_neg nonzero] at zero
        split
        · next trailing =>
          rw [if_pos trailing] at zero
          exact ih _ zero
        · next last =>
          rw [if_neg last] at zero
          exact absurd zero nonzero
  exact step _ d zero

/-! ## The shortest decimal -/

/-- Units that are scaled to a power of ten make an exact decimal, if it is in range. -/
theorem rank_exact {units scale : Nat} (nonzero : units * scale ≠ 0) (fraction : exponent ≤ 0)
    (tens : scale * unitsPerOne = 10 ^ (-exponent).toNat)
    (least : -330 ≤ digitCount (units * scale) + exponent)
    (greatest : digitCount (units * scale) + exponent ≤ 311) :
    rank ⟨negative, units * scale, exponent⟩ = rankOfUnits units 1 := by
  rw [rank]
  dsimp only
  rw [if_neg (by omega), if_neg (by omega), show exponent.toNat = 0 by omega, Nat.pow_zero,
    Nat.mul_one, Nat.mul_assoc, tens]
  have cancelled := rankOfUnits_mul (Nat.pow_pos (n := (-exponent).toNat) (by decide : 0 < 10))
    units 1
  rwa [Nat.one_mul] at cancelled

/-- The number of digits of a product is in range when its factors are. -/
theorem digitCount_mul_bounds (scale low high : Nat) {units top : Nat} (positive : 0 < units)
    (less : units < top) (least : 10 ^ low ≤ scale) (greatest : top * scale ≤ 10 ^ high)
    (some : 0 < low) (some' : 0 < high) :
    low < digitCount (units * scale) ∧ digitCount (units * scale) ≤ high := by
  have scaled : 0 < scale := Nat.lt_of_lt_of_le (Nat.pow_pos (by decide)) least
  rw [digitCount, ← Nat.not_le, Nat.length_toDigits_le_iff (by decide) some,
    Nat.length_toDigits_le_iff (by decide) some', Nat.not_lt]
  exact ⟨Nat.le_trans least (Nat.le_mul_of_pos_left _ positive),
    Nat.lt_of_lt_of_le (Nat.mul_lt_mul_of_pos_right less scaled) greatest⟩

theorem ofRank_of_lt {rank : Nat} (finite : rank < infiniteRank) :
    ofRank negative rank = .finite negative ⟨rank, finite⟩ := dif_pos finite

theorem eq_of_ofRank_eq {m n : Nat} (finite : n < infiniteRank)
    (same : ofRank negative m = ofRank negative n) : m = n := by
  rw [ofRank_of_lt finite, ofRank] at same
  split at same
  · cases same
    rfl
  · cases same

/-- A decimal that is found on a grid has the rank that is wanted. -/
theorem rank_of_neighbour? {tie : Tie} {candidates : Candidates} {rank : Nat}
    (finite : rank < infiniteRank) (found : neighbour? tie candidates rank exponent = some digits) :
    Decimal.rank ⟨negative, digits, exponent⟩ = rank := by
  have reads (readsBack : (toBinary64 ⟨false, digits, exponent⟩ == ofRank false rank) = true) :
      Decimal.rank ⟨negative, digits, exponent⟩ = rank := by
    have same := eq_of_beq readsBack
    rw [toBinary64_eq] at same
    exact eq_of_ofRank_eq finite same
  rw [neighbour?] at found
  split at found
  dsimp only at found
  split at found
  · next near =>
    cases found
    exact reads near
  · split at found
    · next far =>
      cases found
      exact reads far.2
    · cases found

/-- The exact decimal of a finite number other than zero has its rank. -/
theorem rank_fallback {rank : Nat} (nonzero : rank ≠ 0) (finite : rank < infiniteRank) :
    Decimal.rank ⟨negative, unitsOfRank rank * Nat.pow 5 1074, -1074⟩ = rank := by
  have positive : 0 < unitsOfRank rank :=
    Nat.lt_of_le_of_lt (Nat.zero_le _) (unitsOfRank_lt (Nat.pos_of_ne_zero nonzero))
  obtain ⟨least, greatest⟩ := digitCount_mul_bounds (Nat.pow 5 1074) 743 1385 positive
    (unitsOfRank_lt finite) (by decide +kernel) (by decide +kernel) (by decide) (by decide)
  rw [rank_exact (Nat.ne_of_gt (Nat.mul_pos positive (by decide +kernel))) (by decide)
    (by decide +kernel) (by omega) (by omega), rankOfUnits_unitsOfRank]

/-- The shortest decimal of a finite number reads as that number. -/
theorem toBinary64_shortest (tie : Tie) (candidates : Candidates) (negative : Bool)
    (rank : Fin infiniteRank) :
    (shortest tie candidates negative rank).toBinary64 = .finite negative rank := by
  rw [shortest]
  split
  · next zero =>
    rw [toBinary64_eq, Decimal.rank, if_pos (.inl rfl), ofRank_of_lt (by decide)]
    exact congrArg _ (Fin.ext zero.symm)
  · next nonzero =>
    dsimp only
    rw [toBinary64_strip, toBinary64_eq, ← @ofRank_of_lt negative _ rank.isLt]
    cases found : (List.range 17).findSome? _ with
    | some d =>
      obtain ⟨n, -, there⟩ := List.exists_of_findSome?_eq_some found
      obtain ⟨digits, isNeighbour, rfl⟩ := Option.map_eq_some_iff.1 there
      exact congrArg _ (rank_of_neighbour? rank.isLt isNeighbour)
    | none => exact congrArg _ (rank_fallback nonzero rank.isLt)

end Decimal
end Interchange
