import Interchange.Library
import Interchange.Proofs.Binary64.Nearest
import Interchange.Proofs.Coercion

/-!
# Integers taken as floats and back

A receiver of an integer or a float holds a float, so an integer is rounded to 53 digits before it
is truncated to 64 bits. Rounding keeps the order (`rankOfNat_mono`) and ends in a whole number of
no more than 53 digits, shifted (`exists_digits`). So a 64-bit integer comes back exactly if it has
that form, or if it is the greatest one, which is rounded up and cut back; and what lies outside the
range of 64 bits stays outside and becomes the nearest bound (`truncate_int`).
-/

namespace Interchange

namespace Binary64

variable {m n w rank : Nat} {i : Int} {negative : Bool}

/-- The rank of the magnitude nearest to a natural number. -/
def rankOfNat (n : Nat) : Nat := rankOfUnits (n * unitsPerOne) 1

theorem ofInt_eq (i : Int) : ofInt i = ofRank (decide (i < 0)) (rankOfNat i.natAbs) := rfl

/-! ## Whole magnitudes -/

/-- The units of one are a power of two. -/
theorem unitsPerOne_twoPow : ∃ one, 52 ≤ one ∧ unitsPerOne = 2 ^ one := by
  obtain ⟨one, deep, ones⟩ : ∃ one, 52 ≤ one ∧ unitsPerOne = twoPow one :=
    ⟨1074, by decide, unitsPerOne_eq⟩
  exact ⟨one, deep, ones⟩

/-- A natural number of no more than 53 digits is a magnitude, however far it is shifted. -/
theorem exists_rank_shifted (small : m ≤ 2 ^ 53) (e : Nat) :
    ∃ rank, unitsOfRank rank = m * 2 ^ e * unitsPerOne := by
  obtain ⟨one, deep, ones⟩ := unitsPerOne_twoPow
  rw [ones, Nat.mul_assoc, ← Nat.pow_add]
  by_cases zero : m = 0
  · exact ⟨0, by rw [zero, Nat.zero_mul, unitsOfRank_of_lt (by decide)]⟩
  · obtain ⟨rest, binade, place, -, same⟩ := exists_binade (e := e + one) zero small (by omega)
    exact ⟨(binade + 1) * binadeSize + rest, (unitsOfRank_binade place).trans same⟩

/-- From two to the 53 on, magnitudes are natural numbers of 53 digits, shifted. -/
theorem exists_digits_of_le (large : 2 ^ 53 * unitsPerOne ≤ unitsOfRank rank) :
    ∃ m e, m ≤ 2 ^ 53 ∧ unitsOfRank rank = m * 2 ^ e * unitsPerOne := by
  have high : binadeSize ≤ rank := by
    by_contra low
    rw [unitsOfRank_of_lt (by omega)] at large
    have : 2 ^ 53 ≤ 2 ^ 53 * unitsPerOne := Nat.le_mul_of_pos_right _ unitsPerOne_pos
    simp only [binadeSize] at low
    omega
  have place : binadeSize + rank % binadeSize < 2 ^ 53 := by
    have := Nat.mod_lt rank (y := binadeSize) (by decide)
    simp only [binadeSize] at this ⊢
    omega
  obtain ⟨one, -, ones⟩ := unitsPerOne_twoPow
  rw [unitsOfRank_of_le high, ones] at large ⊢
  generalize binadeSize + rank % binadeSize = m at *
  generalize rank / binadeSize - 1 = shift at *
  have deep : one ≤ shift := by
    by_contra shallow
    have : m * 2 ^ shift < 2 ^ 53 * 2 ^ one := Nat.mul_lt_mul_of_lt_of_le place
      (Nat.pow_le_pow_right (by decide) (by omega)) (Nat.two_pow_pos _)
    exact Nat.not_le.2 this large
  refine ⟨m, shift - one, Nat.le_of_lt place, ?_⟩
  rw [Nat.mul_assoc, ← Nat.pow_add, Nat.sub_add_cancel deep]

/-! ## Rounding natural numbers -/

/-- Rounding keeps the order. -/
theorem rankOfNat_mono : Monotone rankOfNat := by
  intro n n' order
  by_contra reversed
  have nearest (n : Nat) : NearestRank n (rankOfNat n) := by
    have := nearestRank_rankOfUnits n Nat.one_pos
    rwa [Nat.cast_one, div_one] at this
  have less := magnitude_strictMono (Nat.lt_of_not_le reversed)
  have low := le_of_abs_sub_le less (nearest n (rankOfNat n')).1
  have high := ge_of_abs_sub_le less (nearest n' (rankOfNat n)).1
  have between : (n : ℚ) = n' :=
    le_antisymm (Nat.cast_le.2 order) (by linarith)
  rw [Nat.cast_inj.1 between] at less
  exact lt_irrefl _ less

/-- A number of no more than 53 digits is kept. -/
theorem unitsOfRank_rankOfNat (small : m ≤ 2 ^ 53) (e : Nat) :
    unitsOfRank (rankOfNat (m * 2 ^ e)) = m * 2 ^ e * unitsPerOne := by
  obtain ⟨rank, units⟩ := exists_rank_shifted small e
  rw [rankOfNat, ← units, rankOfUnits_unitsOfRank]

theorem le_unitsOfRank_rankOfNat (small : m ≤ 2 ^ 53) (e : Nat) (le : m * 2 ^ e ≤ n) :
    m * 2 ^ e * unitsPerOne ≤ unitsOfRank (rankOfNat n) :=
  unitsOfRank_rankOfNat small e ▸ unitsOfRank_strictMono.monotone (rankOfNat_mono le)

theorem unitsOfRank_rankOfNat_le (small : m ≤ 2 ^ 53) (e : Nat) (le : n ≤ m * 2 ^ e) :
    unitsOfRank (rankOfNat n) ≤ m * 2 ^ e * unitsPerOne :=
  unitsOfRank_rankOfNat small e ▸ unitsOfRank_strictMono.monotone (rankOfNat_mono le)

/-- A natural number is rounded to one of no more than 53 digits, shifted. -/
theorem exists_digits (n : Nat) :
    ∃ m e, m ≤ 2 ^ 53 ∧ unitsOfRank (rankOfNat n) = m * 2 ^ e * unitsPerOne := by
  rcases Nat.le_total n (2 ^ 53) with small | large
  · refine ⟨n, 0, small, ?_⟩
    rw [← unitsOfRank_rankOfNat small 0, Nat.pow_zero, Nat.mul_one]
  · have above := le_unitsOfRank_rankOfNat (m := 1) (by decide) 53 ((Nat.one_mul _).le.trans large)
    rw [Nat.one_mul] at above
    exact exists_digits_of_le above

/-! ## Integers -/

/-- A natural number with a sign. -/
def signedInt (negative : Bool) (w : Nat) : Int := if negative then -w else w

theorem signedInt_natAbs (i : Int) : signedInt (decide (i < 0)) i.natAbs = i := by
  by_cases below : i < 0
  · rw [signedInt, decide_eq_true below, if_pos rfl]
    omega
  · rw [signedInt, decide_eq_false below, if_neg Bool.false_ne_true]
    omega

theorem signedUnits_of_whole (units : unitsOfRank rank = w * unitsPerOne) :
    signedUnits negative rank = signedInt negative w * unitsPerOne := by
  rw [signedUnits, units, signedInt, Nat.cast_mul]
  split
  · rw [Int.neg_mul]
  · rfl

theorem integer?_of_whole {rank : Fin infiniteRank}
    (units : unitsOfRank rank = w * unitsPerOne) :
    (finite negative rank).integer? = some (signedInt negative w) := by
  have positive : (unitsPerOne : Int) ≠ 0 := Int.ofNat_ne_zero.2 (Nat.ne_of_gt unitsPerOne_pos)
  rw [integer?]
  simp only [signedUnits_of_whole units, Int.mul_emod_left, if_pos, Int.mul_ediv_cancel _ positive]

theorem toInt64_of_whole {rank : Fin infiniteRank}
    (units : unitsOfRank rank = w * unitsPerOne) :
    (finite negative rank).toInt64 = max minInt64 (min maxInt64 (signedInt negative w)) := by
  have positive : (unitsPerOne : Int) ≠ 0 := Int.ofNat_ne_zero.2 (Nat.ne_of_gt unitsPerOne_pos)
  rw [toInt64, signedUnits_of_whole units, Int.mul_tdiv_cancel _ positive]

/-- Up to two to the 63, an integer is a finite float, which is an integer, too. -/
theorem ofInt_of_whole (units : unitsOfRank (rankOfNat i.natAbs) = w * unitsPerOne)
    (bound : i.natAbs ≤ 2 ^ 63) :
    (ofInt i).integer? = some (signedInt (decide (i < 0)) w) ∧
      (ofInt i).toInt64 = min (signedInt (decide (i < 0)) w) maxInt64 := by
  have below : unitsOfRank (rankOfNat i.natAbs) ≤ 1 * 2 ^ 63 * unitsPerOne :=
    unitsOfRank_rankOfNat_le (by decide) 63 (by omega)
  have small : w ≤ 2 ^ 63 := by
    rw [units] at below
    exact Nat.le_of_mul_le_mul_right (by omega) unitsPerOne_pos
  have finite : rankOfNat i.natAbs < infiniteRank := by
    refine unitsOfRank_strictMono.lt_iff_lt.1 (Nat.lt_of_le_of_lt below ?_)
    decide +kernel
  have whole : unitsOfRank (⟨_, finite⟩ : Fin infiniteRank) = w * unitsPerOne := units
  rw [ofInt_eq, ofRank, dif_pos finite]
  refine ⟨integer?_of_whole whole, ?_⟩
  rw [toInt64_of_whole whole, signedInt]
  simp only [minInt64, maxInt64]
  split <;> omega

/-- From two to the 63 on, an integer becomes the bound on its side. -/
theorem toInt64_of_large (large : 2 ^ 63 ≤ i.natAbs) :
    (ofInt i).toInt64 = if i < 0 then minInt64 else maxInt64 := by
  obtain ⟨m, e, -, units⟩ := exists_digits i.natAbs
  have above : 1 * 2 ^ 63 * unitsPerOne ≤ unitsOfRank (rankOfNat i.natAbs) :=
    le_unitsOfRank_rankOfNat (by decide) 63 (by omega)
  rw [units] at above
  have outside : 1 * 2 ^ 63 ≤ m * 2 ^ e := Nat.le_of_mul_le_mul_right above unitsPerOne_pos
  rw [ofInt_eq, ofRank]
  split
  · next finite =>
    have whole : unitsOfRank (⟨_, finite⟩ : Fin infiniteRank) = m * 2 ^ e * unitsPerOne := units
    rw [toInt64_of_whole whole, signedInt]
    generalize m * 2 ^ e = w at outside
    simp only [minInt64, maxInt64, decide_eq_true_eq]
    split <;> omega
  · simp [toInt64]

theorem nearest_ofInt (i : Int) : (ofInt i).Nearest i := by
  have rounded := nearest_ofRatio (decide (i < 0)) i.natAbs Nat.one_pos
  have same : signed (decide (i < 0)) ((i.natAbs : ℚ) / (1 : Nat)) = i := by
    rw [Nat.cast_one, div_one, signed]
    conv_rhs => rw [← signedInt_natAbs i, signedInt]
    split <;> simp
  rwa [same] at rounded

/-- Numbers of no more than 53 digits, shifted. -/
def HasDigits (i : Int) : Prop := ∃ (m : Int) (e : Nat), m.natAbs ≤ 2 ^ 53 ∧ i = m * 2 ^ e

theorem hasDigits_signedInt (small : m ≤ 2 ^ 53) (negative : Bool) (e : Nat) :
    HasDigits (signedInt negative (m * 2 ^ e)) := by
  cases negative
  · exact ⟨m, e, by omega, by simp [signedInt]⟩
  · exact ⟨-m, e, by omega, by simp [signedInt]⟩

/-- What has the digits of a float comes back as it was. -/
theorem toInt64_of_hasDigits (digits : HasDigits i) (fits : fitsInt64 i = true) :
    (ofInt i).toInt64 = i := by
  obtain ⟨m, e, small, same⟩ := digits
  have magnitude : i.natAbs = m.natAbs * 2 ^ e := by
    rw [same, Int.natAbs_mul, Int.natAbs_pow]
    rfl
  have units := unitsOfRank_rankOfNat small e
  rw [← magnitude] at units
  have range := fitsInt64_iff.1 fits
  rw [(ofInt_of_whole units (by omega)).2, signedInt_natAbs]
  exact min_eq_left (Int.le_of_lt_add_one range.2)

/-- The integers of 64 bits that come back as they were. The greatest one is rounded to two to the
63 and cut back. -/
theorem toInt64_ofInt_iff (fits : fitsInt64 i = true) :
    (ofInt i).toInt64 = i ↔ HasDigits i ∨ i = maxInt64 := by
  constructor
  · intro kept
    obtain ⟨m, e, small, units⟩ := exists_digits i.natAbs
    have digits := hasDigits_signedInt small (decide (i < 0)) e
    have range := fitsInt64_iff.1 fits
    rw [(ofInt_of_whole units (by omega)).2] at kept
    rcases min_choice (signedInt (decide (i < 0)) (m * 2 ^ e)) maxInt64 with least | least
    · rw [least] at kept
      exact .inl (kept ▸ digits)
    · exact .inr (kept.symm.trans least)
  · rintro (digits | rfl)
    · exact toInt64_of_hasDigits digits fits
    · decide +kernel

end Binary64

open Binary64

/-- The library function truncates what a receiver of an integer or a float holds. -/
theorem runOn_truncate (s : Store) (i : Int) :
    (LibraryFunction.truncate.run [.int i]).runOn s = (.ok (.int (ofInt i).toInt64), s) := rfl

/-- **An integer taken as a float keeps 53 digits.** What is held of an integer is the nearest
float. For an integer of 64 bits that is an integer again, which truncation cuts to the greatest one
at most; it is the integer that came exactly if this has no more than 53 digits before its zeros, or
is the greatest one itself. An integer beyond 64 bits becomes the bound on its side. -/
theorem truncate_int :
    (∀ (s : Store) (i : Int), s.unpack .intOrFloat (.int i) = .ok (ofInt i) ∧ (ofInt i).Nearest i ∧
      (LibraryFunction.truncate.run [.int i]).runOn s = (.ok (.int (ofInt i).toInt64), s)) ∧
    (∀ i, fitsInt64 i = true →
      (∃ j, (ofInt i).integer? = some j ∧ (ofInt i).toInt64 = min j maxInt64) ∧
      ((ofInt i).toInt64 = i ↔ HasDigits i ∨ i = maxInt64)) ∧
    (∀ i, i.natAbs ≤ 2 ^ 53 → (ofInt i).toInt64 = i) ∧
    (∀ i, i < minInt64 → (ofInt i).toInt64 = minInt64) ∧
    ∀ i, maxInt64 < i → (ofInt i).toInt64 = maxInt64 := by
  refine ⟨fun s i => ⟨rfl, nearest_ofInt i, runOn_truncate s i⟩,
    fun i fits => ⟨?_, toInt64_ofInt_iff fits⟩, fun i small => ?_, fun i below => ?_,
    fun i above => ?_⟩
  · obtain ⟨m, e, -, units⟩ := exists_digits i.natAbs
    have range := fitsInt64_iff.1 fits
    exact ⟨_, ofInt_of_whole units (by omega)⟩
  · refine toInt64_of_hasDigits ⟨i, 0, small, by rw [pow_zero, mul_one]⟩ ?_
    exact fitsInt64_iff.2 (by omega)
  · simp only [minInt64] at below
    rw [toInt64_of_large (by omega), if_pos (by omega)]
  · simp only [maxInt64] at above
    rw [toInt64_of_large (by omega), if_neg (by omega)]

/-- Two to the 53 and two more has 53 digits; two to the 63 is out of range. -/
theorem truncate_wide :
    (LibraryFunction.truncate.run [.int 9007199254740994]).runOn .empty =
      (.ok (.int 9007199254740994), .empty) ∧
    (ofInt (-5)).toInt64 = -5 ∧
    (ofInt 9223372036854775808).toInt64 = 9223372036854775807 ∧
    (ofInt (-9223372036854775809)).toInt64 = -9223372036854775808 := by
  obtain ⟨held, kept, small, low, high⟩ := truncate_int
  have digits : HasDigits 9007199254740994 := ⟨4503599627370497, 1, by decide, by decide⟩
  refine ⟨?_, small _ (by decide), high _ (by decide), low _ (by decide)⟩
  rw [(held .empty _).2.2, (kept _ (by decide)).2.2 (.inl digits)]

/-- An integer of 64 bits that is not kept: two to the 53 and one more lies half way between two
floats and goes to the even one. -/
theorem truncate_odd :
    fitsInt64 9007199254740993 = true ∧
    (Store.empty.unpack .intOrFloat (.int 9007199254740993)).map toInt64 =
      .ok 9007199254740992 ∧
    (LibraryFunction.truncate.run [.int 9007199254740993]).runOn .empty =
      (.ok (.int 9007199254740992), .empty) := by
  have rounded : (ofInt 9007199254740993).toInt64 = 9007199254740992 := by decide +kernel
  refine ⟨by decide, congrArg Except.ok rounded, ?_⟩
  rw [runOn_truncate, rounded]

end Interchange
