import Interchange.Proofs.Binary64.Nearest
import Interchange.Proofs.Decimal.Value

/-!
# Decimals are read as the nearest number

The powers of ten that are never computed are out of reach: below the one bound every decimal is
nearest to zero, and above the other it is past the greatest finite number. So a decimal reads as its
ratio would (`toBinary64_eq_ofRatio`), and that is the nearest number (`toBinary64_nearest`).
-/

namespace Interchange.Decimal

open Binary64

/-- The rational that a decimal stands for. -/
def value (d : Decimal) : ℚ := signed d.negative (d.digits * 10 ^ d.exponent)

variable {num den n : Nat} {d : Decimal}

theorem rankOfUnits_of_small (small : 2 * num < den) : rankOfUnits num den = 0 := by
  have none : num / den = 0 := Nat.div_eq_of_lt (by omega)
  have rest : num % den = num := Nat.mod_eq_of_lt (by omega)
  have log : Nat.log2 0 - 52 = 0 := by decide
  rw [rankOfUnits, none, log, roundDiv]
  simp [none, rest, small]

theorem digitCount_bounds (positive : 0 < n) :
    10 ^ (digitCount n - 1) ≤ n ∧ n < 10 ^ digitCount n := by
  have some : 0 < digitCount n := Nat.length_toDigits_pos
  constructor
  · by_cases one : digitCount n - 1 = 0
    · rw [one]
      exact positive
    · refine Nat.le_of_not_lt fun less => ?_
      have := (Nat.length_toDigits_le_iff (b := 10) (by decide) (Nat.pos_of_ne_zero one)).2 less
      rw [← digitCount] at this
      omega
  · exact (Nat.length_toDigits_le_iff (by decide) some).1 (Nat.le_refl _)

/-- What is below a power of ten that is no more than half a unit is nearest to zero. -/
theorem rank_of_low {bound : Nat} (half : 2 * unitsPerOne ≤ 10 ^ bound)
    (low : (digitCount d.digits : Int) + d.exponent < -bound) :
    rankOfUnits (d.digits * 10 ^ d.exponent.toNat * unitsPerOne) (10 ^ (-d.exponent).toNat) = 0 := by
  by_cases zero : d.digits = 0
  · rw [zero, Nat.zero_mul, Nat.zero_mul]
    exact rankOfUnits_of_small (Nat.pow_pos (by decide))
  · refine rankOfUnits_of_small ?_
    have upper := (digitCount_bounds (Nat.pos_of_ne_zero zero)).2
    have none : d.exponent.toNat = 0 := by omega
    rw [none, Nat.pow_zero, Nat.mul_one]
    calc 2 * (d.digits * unitsPerOne) = d.digits * (2 * unitsPerOne) := Nat.mul_left_comm ..
      _ ≤ d.digits * 10 ^ bound := Nat.mul_le_mul_left _ half
      _ < 10 ^ digitCount d.digits * 10 ^ bound :=
        Nat.mul_lt_mul_of_pos_right upper (Nat.pow_pos (by decide))
      _ = 10 ^ (digitCount d.digits + bound) := (Nat.pow_add ..).symm
      _ ≤ 10 ^ (-d.exponent).toNat := Nat.pow_le_pow_right (by decide) (by omega)

/-- What is not below a power of ten that is past the greatest finite number is infinite. -/
theorem rank_of_high {bound : Nat} (past : overflow ≤ (10 ^ bound : Nat)) (nonzero : d.digits ≠ 0)
    (high : bound < (digitCount d.digits : Int) + d.exponent) : infiniteRank ≤
      rankOfUnits (d.digits * 10 ^ d.exponent.toNat * unitsPerOne) (10 ^ (-d.exponent).toNat) := by
  have tens : 0 < 10 ^ (-d.exponent).toNat := Nat.pow_pos (by decide)
  refine (nearestRank_rankOfUnits _ tens).infinite_iff.2 (le_trans past ?_)
  have lower := (digitCount_bounds (Nat.pos_of_ne_zero nonzero)).1
  have large : 10 ^ bound * 10 ^ (-d.exponent).toNat ≤ d.digits * 10 ^ d.exponent.toNat := by
    calc 10 ^ bound * 10 ^ (-d.exponent).toNat = 10 ^ (bound + (-d.exponent).toNat) :=
          (Nat.pow_add ..).symm
      _ ≤ 10 ^ (digitCount d.digits - 1 + d.exponent.toNat) :=
        Nat.pow_le_pow_right (by decide) (by omega)
      _ = 10 ^ (digitCount d.digits - 1) * 10 ^ d.exponent.toNat := Nat.pow_add ..
      _ ≤ d.digits * 10 ^ d.exponent.toNat := Nat.mul_le_mul_right _ lower
  rw [le_div_iff₀ (Nat.cast_pos.2 tens), ← Nat.cast_mul]
  exact Nat.cast_le.2 large

theorem cast_last (n : Nat) : (((2 ^ 54 - 1) * 2 ^ n : Nat) : ℚ) = (2 ^ 54 - 1) * 2 ^ n := by
  push_cast
  norm_num

theorem overflow_le : overflow ≤ (10 ^ 311 : Nat) := by
  rw [overflow, ← cast_last]
  exact Nat.cast_le.2 (by decide +kernel)

theorem toBinary64_eq_ofRatio (d : Decimal) : d.toBinary64 =
    ofRatio d.negative (d.digits * 10 ^ d.exponent.toNat) (10 ^ (-d.exponent).toNat) := by
  rw [toBinary64_eq, rank, ofRatio]
  split
  · next low =>
    rcases low with zero | low
    · rw [zero, Nat.zero_mul, Nat.zero_mul, rankOfUnits_of_small (Nat.pow_pos (by decide))]
    · rw [rank_of_low (by decide +kernel) low]
  · next notLow =>
    split
    · next high =>
      have past := rank_of_high overflow_le (fun zero => notLow (.inl zero)) high
      rw [ofRank, ofRank, dif_neg (Nat.lt_irrefl _), dif_neg (Nat.not_lt.2 past)]
    · rfl

theorem value_eq (d : Decimal) : d.value = signed d.negative
    ((d.digits * 10 ^ d.exponent.toNat : Nat) / (10 ^ (-d.exponent).toNat : Nat)) := by
  have tens : (10 : ℚ) ≠ 0 := by norm_num
  rw [value]
  congr 1
  push_cast
  rw [mul_div_assoc, ← zpow_natCast, ← zpow_natCast, ← zpow_sub₀ tens]
  congr 2
  omega

/-- A decimal reads as the nearest number. -/
theorem toBinary64_nearest (d : Decimal) : d.toBinary64.Nearest d.value := by
  rw [toBinary64_eq_ofRatio, value_eq]
  exact nearest_ofRatio d.negative _ (Nat.pow_pos (by decide))

/-- It has the sign that is written, zero as well, and is infinite exactly from half way past the
greatest finite number on. -/
theorem toBinary64_cases (d : Decimal) :
    (∃ rank, d.toBinary64 = .finite d.negative rank ∧ |d.value| < overflow) ∨
      d.toBinary64 = .infinity d.negative ∧ overflow ≤ |d.value| := by
  have nearest := d.toBinary64_nearest
  rw [toBinary64_eq] at nearest ⊢
  unfold ofRank at nearest ⊢
  split
  · next finite =>
    rw [dif_pos finite] at nearest
    exact .inl ⟨_, rfl, nearest.1⟩
  · next infinite =>
    rw [dif_neg infinite] at nearest
    refine .inr ⟨rfl, le_trans nearest ?_⟩
    rw [← abs_signed d.negative]
    exact le_abs_self _

end Interchange.Decimal
