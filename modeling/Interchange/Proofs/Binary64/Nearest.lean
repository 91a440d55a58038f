import Mathlib.Tactic.Linarith
import Mathlib.Tactic.Positivity
import Mathlib.Tactic.FieldSimp
import Mathlib.Algebra.Order.Field.Basic
import Mathlib.Data.Rat.Cast.Order
import Interchange.Proofs.Binary64

/-!
# The nearest number

What `Binary64.ofRatio` comes to is the finite number nearest to the ratio, of two the one of even
rank; or the infinity of its sign, when the ratio lies half a gap or more past the greatest finite
number (`nearest_ofRatio`). Ranks are given to the magnitudes past the finite ones, too, and among all
of these `rankOfUnits` finds the nearest (`rankOfUnits_nearest`): in the binade of the ratio the
magnitudes are the multiples of one gap, so there it is the nearest multiple that is wanted, and the
magnitudes of the binades below are no nearer than the least of this one.
-/

namespace Interchange.Binary64

variable {den k m e rank : Nat} {q : ℚ} {negative : Bool}

/-! ## The nearest whole number -/

theorem ratio_eq (num : Nat) (positive : 0 < den) :
    (num : ℚ) / den = (num / den : Nat) + (num % den : Nat) / (den : ℚ) := by
  have positive' : (0 : ℚ) < den := Nat.cast_pos.2 positive
  have whole : (den : ℚ) * (num / den : Nat) + (num % den : Nat) = num := by
    exact_mod_cast Nat.div_add_mod num den
  rw [eq_comm, add_div' _ _ _ (ne_of_gt positive'), mul_comm, whole]

/-- No whole number is further than a half away, and half way it is an even one. -/
theorem roundDiv_near (num : Nat) (positive : 0 < den) :
    |(num : ℚ) / den - roundDiv num den| ≤ 1 / 2 ∧
      (|(num : ℚ) / den - roundDiv num den| = 1 / 2 → roundDiv num den % 2 = 0) := by
  have positive' : (0 : ℚ) < den := Nat.cast_pos.2 positive
  have rest : (0 : ℚ) ≤ (num % den : Nat) / (den : ℚ) := by positivity
  have rest' : ((num % den : Nat) : ℚ) / den < 1 := by
    rw [div_lt_one positive']
    exact_mod_cast Nat.mod_lt num positive
  have half (n : Nat) : ((n : ℚ) / den < 1 / 2 ↔ 2 * n < den) ∧ (1 / 2 < (n : ℚ) / den ↔ den < 2 * n) := by
    rw [div_lt_iff₀ positive', lt_div_iff₀ positive']
    constructor
    · rw [← Nat.cast_lt (α := ℚ)]
      push_cast
      constructor <;> intro h <;> linarith
    · rw [← Nat.cast_lt (α := ℚ)]
      push_cast
      constructor <;> intro h <;> linarith
  obtain ⟨below, above⟩ := half (num % den)
  rw [ratio_eq num positive, roundDiv]
  split
  · next low =>
    have low := below.2 low
    rw [add_sub_cancel_left, abs_of_nonneg rest]
    exact ⟨le_of_lt low, fun same => absurd same (ne_of_lt low)⟩
  · next high =>
    split
    · next high =>
      have high := above.2 high
      push_cast
      rw [add_sub_add_left_eq_sub, abs_of_neg (by linarith)]
      exact ⟨by linarith, fun same => absurd same (by linarith)⟩
    · next low =>
      have exact' : ((num % den : Nat) : ℚ) / den = 1 / 2 :=
        le_antisymm (not_lt.1 fun h => low (above.1 h)) (not_lt.1 fun h => high (below.1 h))
      rw [exact']
      rcases Nat.mod_two_eq_zero_or_one (num / den) with even | odd
      · rw [even]
        norm_num
        omega
      · rw [odd]
        push_cast
        norm_num
        omega

theorem roundDiv_nearest (num : Nat) (positive : 0 < den) (j : Nat) :
    |(num : ℚ) / den - roundDiv num den| ≤ |(num : ℚ) / den - j| ∧
      (|(num : ℚ) / den - roundDiv num den| = |(num : ℚ) / den - j| →
        j = roundDiv num den ∨ roundDiv num den % 2 = 0) := by
  obtain ⟨near, even⟩ := roundDiv_near num positive
  generalize roundDiv num den = m at *
  by_cases same : j = m
  · subst same
    exact ⟨le_refl _, fun _ => .inl rfl⟩
  · have apart : (1 : ℚ) ≤ |(j : ℚ) - m| := by
      have : (1 : ℤ) ≤ |(j : ℤ) - m| := Int.one_le_abs (by omega)
      exact_mod_cast this
    have between : |(j : ℚ) - m| ≤ |(num : ℚ) / den - m| + |(num : ℚ) / den - j| := by
      rw [abs_sub_comm ((num : ℚ) / den) j, add_comm]
      exact abs_sub_le _ _ _
    exact ⟨by linarith, fun equal => .inr (even (by linarith))⟩

theorem roundDiv_bounds (num den : Nat) :
    num / den ≤ roundDiv num den ∧ roundDiv num den ≤ num / den + 1 := by
  simp only [roundDiv]
  split_ifs <;> omega

/-! ## The nearest rank -/

theorem binadeSize_eq : binadeSize = 2 ^ 52 := rfl

/-- The multiples of the gap of a binade are magnitudes, up to the first of the next binade. -/
theorem unitsOfRank_multiple (most : m ≤ 2 ^ 53) (least : e = 0 ∨ 2 ^ 52 ≤ m) :
    unitsOfRank (e * binadeSize + m) = m * 2 ^ e := by
  by_cases low : m < 2 ^ 52
  · obtain rfl : e = 0 := least.resolve_right (Nat.not_le.2 low)
    rw [Nat.zero_mul, Nat.zero_add, Nat.pow_zero, Nat.mul_one]
    exact unitsOfRank_of_lt (by simp only [binadeSize]; omega)
  · by_cases last : m = 2 ^ 53
    · have rank : e * binadeSize + m = (e + 1 + 1) * binadeSize + 0 := by
        simp only [binadeSize]
        omega
      rw [rank, unitsOfRank_binade (by decide), last, Nat.pow_succ]
      simp only [binadeSize]
      omega
    · obtain ⟨rest, rfl⟩ := Nat.exists_eq_add_of_le (Nat.le_of_not_lt low)
      have rank : e * binadeSize + (2 ^ 52 + rest) = (e + 1) * binadeSize + rest := by
        simp only [binadeSize]
        omega
      rw [rank, unitsOfRank_binade (by simp only [binadeSize]; omega), binadeSize_eq]

/-- A magnitude is a multiple of the gap of a binade, or it is below the binade. -/
theorem unitsOfRank_cases (e k : Nat) :
    (∃ j, unitsOfRank k = j * 2 ^ e) ∨ 0 < e ∧ unitsOfRank k < 2 ^ 52 * 2 ^ e := by
  by_cases zero : e = 0
  · subst zero
    exact .inl ⟨unitsOfRank k, (Nat.mul_one _).symm⟩
  · have first : unitsOfRank ((e + 1) * binadeSize) = 2 ^ 52 * 2 ^ e := by
      rw [← Nat.add_zero ((e + 1) * binadeSize), unitsOfRank_binade (by decide), Nat.add_zero,
        binadeSize_eq]
    by_cases below : k < (e + 1) * binadeSize
    · exact .inr ⟨Nat.pos_of_ne_zero zero, first ▸ unitsOfRank_lt below⟩
    · have above := Nat.le_of_not_lt below
      obtain ⟨more, same⟩ : ∃ more, k / binadeSize = e + 1 + more :=
        Nat.exists_eq_add_of_le ((Nat.le_div_iff_mul_le (by decide)).2 above)
      have large : binadeSize ≤ k :=
        Nat.le_trans (Nat.le_mul_of_pos_left _ (Nat.succ_pos e)) above
      refine .inl ⟨(binadeSize + k % binadeSize) * 2 ^ more, ?_⟩
      rw [unitsOfRank_of_le large, same, Nat.mul_assoc, ← Nat.pow_add,
        show e + 1 + more - 1 = more + e by omega]

/-- The binade of a ratio, and how many of its gaps the ratio is rounded to. -/
theorem exists_binade_of_ratio (num : Nat) (positive : 0 < den) : ∃ e,
    rankOfUnits num den = e * binadeSize + roundDiv num (den * 2 ^ e) ∧
      roundDiv num (den * 2 ^ e) ≤ 2 ^ 53 ∧
      (e = 0 ∨ 2 ^ 52 * (den * 2 ^ e) ≤ num ∧ 2 ^ 52 ≤ roundDiv num (den * 2 ^ e)) := by
  refine ⟨(num / den).log2 - 52, rfl, ?_, ?_⟩
  · generalize binade : (num / den).log2 - 52 = e
    have upper : num / den < 2 ^ 53 * 2 ^ e := by
      calc num / den < 2 ^ ((num / den).log2 + 1) := Nat.lt_log2_self
        _ ≤ 2 ^ (53 + e) := Nat.pow_le_pow_right (by decide) (by omega)
        _ = 2 ^ 53 * 2 ^ e := Nat.pow_add ..
    have gaps : num / (den * 2 ^ e) < 2 ^ 53 := by
      rw [← Nat.div_div_eq_div_mul]
      exact Nat.div_lt_of_lt_mul (by rwa [Nat.mul_comm])
    have := (roundDiv_bounds num (den * 2 ^ e)).2
    omega
  · generalize binade : (num / den).log2 - 52 = e
    by_cases zero : e = 0
    · exact .inl zero
    · have whole : num / den ≠ 0 := by
        intro none
        rw [none] at binade
        exact zero (by rw [← binade]; rfl)
      have lower : 2 ^ 52 * 2 ^ e ≤ num / den := by
        calc 2 ^ 52 * 2 ^ e = 2 ^ (52 + e) := (Nat.pow_add ..).symm
          _ = 2 ^ (num / den).log2 := congrArg (2 ^ ·) (by omega)
          _ ≤ num / den := Nat.log2_self_le whole
      have scaled : 2 ^ 52 * (den * 2 ^ e) ≤ num := by
        calc 2 ^ 52 * (den * 2 ^ e) = den * (2 ^ 52 * 2 ^ e) := Nat.mul_left_comm ..
          _ ≤ den * (num / den) := Nat.mul_le_mul_left _ lower
          _ ≤ num := Nat.mul_div_le num den
      have gaps := (Nat.le_div_iff_mul_le (Nat.mul_pos positive (Nat.two_pow_pos e))).2 scaled
      exact .inr ⟨scaled, Nat.le_trans gaps (roundDiv_bounds _ _).1⟩

/-- Of all magnitudes, the one of the rank that is found is nearest to the ratio, and of two it is the
one of even rank. -/
theorem rankOfUnits_nearest (num : Nat) (positive : 0 < den) (k : Nat) :
    |(num : ℚ) / den - unitsOfRank (rankOfUnits num den)| ≤ |(num : ℚ) / den - unitsOfRank k| ∧
      (|(num : ℚ) / den - unitsOfRank (rankOfUnits num den)| = |(num : ℚ) / den - unitsOfRank k| →
        k = rankOfUnits num den ∨ rankOfUnits num den % 2 = 0) := by
  obtain ⟨e, rank, most, least⟩ := exists_binade_of_ratio num positive
  have units := unitsOfRank_multiple most (least.imp id And.right)
  have nearest := roundDiv_nearest num (Nat.mul_pos positive (Nat.two_pow_pos e))
  rw [rank, units]
  generalize roundDiv num (den * 2 ^ e) = m at *
  have positive' : (0 : ℚ) < den := Nat.cast_pos.2 positive
  have gap : (0 : ℚ) < 2 ^ e := by positivity
  -- Distances from multiples of the gap are distances from whole numbers, at the scale of the gap.
  have scale (j : Nat) : |(num : ℚ) / den - (j * 2 ^ e : Nat)| =
      |(num : ℚ) / (den * 2 ^ e : Nat) - j| * 2 ^ e := by
    have scaled : (num : ℚ) / den - (j * 2 ^ e : Nat) =
        ((num : ℚ) / (den * 2 ^ e : Nat) - j) * 2 ^ e := by
      push_cast
      field_simp
    rw [scaled, abs_mul, abs_of_pos gap]
  rcases unitsOfRank_cases e k with ⟨j, multiple⟩ | ⟨high, below⟩
  · obtain ⟨near, tie⟩ := nearest j
    rw [multiple, scale, scale]
    refine ⟨mul_le_mul_of_nonneg_right near (le_of_lt gap), fun equal => ?_⟩
    rcases tie (mul_right_cancel₀ (ne_of_gt gap) equal) with rfl | even
    · left
      apply unitsOfRank_strictMono.injective
      rw [units, multiple]
    · right
      simp only [binadeSize]
      omega
  · have start : ((2 ^ 52 * 2 ^ e : Nat) : ℚ) ≤ num / den := by
      obtain ⟨scaled, -⟩ := least.resolve_left (Nat.ne_of_gt high)
      rw [le_div_iff₀ positive']
      exact_mod_cast (by rwa [Nat.mul_assoc, Nat.mul_comm (2 ^ e)] : 2 ^ 52 * 2 ^ e * den ≤ num)
    have below' : (unitsOfRank k : ℚ) < (2 ^ 52 * 2 ^ e : Nat) := Nat.cast_lt.2 below
    have nearer : |(num : ℚ) / den - (m * 2 ^ e : Nat)| < |(num : ℚ) / den - unitsOfRank k| := by
      calc |(num : ℚ) / den - (m * 2 ^ e : Nat)|
          ≤ |(num : ℚ) / den - (2 ^ 52 * 2 ^ e : Nat)| := by
            rw [scale, scale]
            exact mul_le_mul_of_nonneg_right (nearest (2 ^ 52)).1 (le_of_lt gap)
        _ = (num : ℚ) / den - (2 ^ 52 * 2 ^ e : Nat) := abs_of_nonneg (sub_nonneg.2 start)
        _ < (num : ℚ) / den - unitsOfRank k := sub_lt_sub_left below' _
        _ ≤ |(num : ℚ) / den - unitsOfRank k| := le_abs_self _
    exact ⟨le_of_lt nearer, fun equal => absurd equal (ne_of_lt nearer)⟩

/-! ## The nearest finite number -/

/-- The magnitude of a rank. -/
def magnitude (rank : Nat) : ℚ := unitsOfRank rank / unitsPerOne

def signed (negative : Bool) (q : ℚ) : ℚ := if negative then -q else q

/-- Half way from the greatest finite number to the magnitude that would come next. -/
def overflow : ℚ := (2 ^ 54 - 1) * 2 ^ 970

/-- A number is nearest to a rational when no finite number is nearer, and of two as near it has the
even rank. What is half way or more to the magnitude past the finite ones is infinite. -/
def Nearest (q : ℚ) : Binary64 → Prop
  | nan => False
  | infinity negative => overflow ≤ signed negative q
  | finite negative rank => |q| < overflow ∧ ∀ (other : Bool) (r : Fin infiniteRank),
      |q - signed negative (magnitude rank)| ≤ |q - signed other (magnitude r)| ∧
      (|q - signed negative (magnitude rank)| = |q - signed other (magnitude r)| →
        r = rank ∨ rank.val % 2 = 0)

theorem magnitude_strictMono : StrictMono magnitude := fun _ _ less =>
  div_lt_div_of_pos_right (Nat.cast_lt.2 (unitsOfRank_lt less)) (Nat.cast_pos.2 unitsPerOne_pos)

theorem magnitude_nonneg (rank : Nat) : 0 ≤ magnitude rank :=
  div_nonneg (Nat.cast_nonneg _) (Nat.cast_nonneg _)

theorem cast_twoPow (n : Nat) : (twoPow n : ℚ) = 2 ^ n := Nat.cast_pow 2 n

theorem magnitude_binade {binade rest one : Nat} (place : rest < binadeSize)
    (ones : unitsPerOne = twoPow one) : magnitude ((binade + one + 1) * binadeSize + rest) =
      (binadeSize + rest : Nat) * 2 ^ binade := by
  rw [magnitude, unitsOfRank_binade place, ones, cast_twoPow, Nat.pow_add, Nat.cast_mul,
    Nat.cast_mul, Nat.cast_pow, Nat.cast_pow, Nat.cast_two, ← mul_assoc,
    mul_div_cancel_right₀ _ (pow_ne_zero one two_ne_zero)]

/-- The greatest finite number and the magnitude that would come next are as far from half way. -/
theorem magnitude_last :
    magnitude (infiniteRank - 1) + magnitude infiniteRank = 2 * overflow := by
  have last : infiniteRank - 1 = (971 + 1074 + 1) * binadeSize + (binadeSize - 1) := by decide
  have next : infiniteRank = (972 + 1074 + 1) * binadeSize + 0 := by decide
  rw [last, next, magnitude_binade (by decide) unitsPerOne_eq,
    magnitude_binade (by decide) unitsPerOne_eq, overflow, pow_succ _ 971, pow_succ _ 970]
  generalize (2 : ℚ) ^ 970 = gap
  norm_num
  ring

/-- No magnitude is nearer, those past the finite ones included, and of two as near it has the even
rank. -/
def NearestRank (q : ℚ) (rank : Nat) : Prop :=
  ∀ k, |q - magnitude rank| ≤ |q - magnitude k| ∧
    (|q - magnitude rank| = |q - magnitude k| → k = rank ∨ rank % 2 = 0)

theorem nearestRank_rankOfUnits (num : Nat) (positive : 0 < den) :
    NearestRank (num / den) (rankOfUnits (num * unitsPerOne) den) := by
  intro k
  have one : (0 : ℚ) < unitsPerOne := Nat.cast_pos.2 unitsPerOne_pos
  have scale (r : Nat) : |(num : ℚ) / den - magnitude r| =
      |((num * unitsPerOne : Nat) : ℚ) / den - unitsOfRank r| / unitsPerOne := by
    have scaled : (num : ℚ) / den - magnitude r =
        (((num * unitsPerOne : Nat) : ℚ) / den - unitsOfRank r) / unitsPerOne := by
      rw [magnitude, sub_div, Nat.cast_mul, div_right_comm, mul_div_cancel_right₀ _ (ne_of_gt one)]
    rw [scaled, abs_div, abs_of_pos one]
  obtain ⟨near, tie⟩ := rankOfUnits_nearest (num * unitsPerOne) positive k
  rw [scale, scale]
  exact ⟨div_le_div_of_nonneg_right near (le_of_lt one),
    fun equal => tie ((div_left_inj' (ne_of_gt one)).1 equal)⟩

/-- What is no nearer to the less of two numbers is not before half way. -/
theorem le_of_abs_sub_le {a b : ℚ} (less : a < b) (near : |q - b| ≤ |q - a|) : a + b ≤ 2 * q := by
  rcases abs_cases (q - a) with ⟨left, sign⟩ | ⟨left, sign⟩ <;>
    rcases abs_cases (q - b) with ⟨right, sign'⟩ | ⟨right, sign'⟩ <;> linarith

theorem ge_of_abs_sub_le {a b : ℚ} (less : a < b) (near : |q - a| ≤ |q - b|) : 2 * q ≤ a + b := by
  rcases abs_cases (q - a) with ⟨left, sign⟩ | ⟨left, sign⟩ <;>
    rcases abs_cases (q - b) with ⟨right, sign'⟩ | ⟨right, sign'⟩ <;> linarith

/-- The nearest magnitude is past the finite ones exactly from half way on. -/
theorem NearestRank.infinite_iff (nearest : NearestRank q rank) :
    infiniteRank ≤ rank ↔ overflow ≤ q := by
  have last := magnitude_last
  constructor
  · intro infinite
    have before : magnitude (infiniteRank - 1) < magnitude rank :=
      magnitude_strictMono (by simp only [infiniteRank] at infinite ⊢; omega)
    have half := le_of_abs_sub_le before (nearest (infiniteRank - 1)).1
    have past := magnitude_strictMono.monotone infinite
    linarith
  · intro past
    by_contra finite
    have finite := Nat.lt_of_not_le finite
    have before := magnitude_strictMono finite
    have half := ge_of_abs_sub_le before (nearest infiniteRank).1
    have least : rank ≤ infiniteRank - 1 := Nat.le_sub_one_of_lt finite
    have below := magnitude_strictMono.monotone least
    -- Only half way is left, where both are as near; but the last finite rank is odd.
    have same : magnitude rank = magnitude (infiniteRank - 1) := by linarith
    have half : |q - magnitude rank| = |q - magnitude infiniteRank| := by
      rw [abs_of_nonneg (by linarith), abs_of_nonpos (by linarith)]
      linarith
    obtain rfl := magnitude_strictMono.injective same
    rcases (nearest infiniteRank).2 half with same | even
    · exact absurd same (by decide)
    · exact absurd even (by decide)

theorem signed_sub (negative : Bool) (a b : ℚ) :
    |signed negative a - signed negative b| = |a - b| := by
  cases negative
  · rfl
  · rw [signed, signed, if_pos rfl, if_pos rfl, ← neg_sub', abs_neg]

theorem abs_signed (negative : Bool) (a : ℚ) : |signed negative a| = |a| := by
  cases negative
  · rfl
  · exact abs_neg a

/-- A number of the other sign is no nearer than its magnitude. -/
theorem abs_sub_signed_le {a b : ℚ} (nonneg : 0 ≤ a) (nonneg' : 0 ≤ b) (negative other : Bool) :
    |a - b| ≤ |signed negative a - signed other b| := by
  have magnitudes := abs_abs_sub_abs_le (signed negative a) (signed other b)
  rwa [abs_signed, abs_signed, abs_of_nonneg nonneg, abs_of_nonneg nonneg'] at magnitudes

theorem NearestRank.nearest (nearest : NearestRank q rank) (nonneg : 0 ≤ q) (negative : Bool) :
    (ofRank negative rank).Nearest (signed negative q) := by
  by_cases finite : rank < infiniteRank
  · rw [ofRank, dif_pos finite]
    refine ⟨?_, fun other r => ?_⟩
    · rw [abs_signed, abs_of_nonneg nonneg]
      exact lt_of_not_ge fun past => Nat.not_le.2 finite (nearest.infinite_iff.2 past)
    · obtain ⟨near, tie⟩ := nearest r
      have other := abs_sub_signed_le nonneg (magnitude_nonneg r) negative other
      rw [signed_sub]
      refine ⟨le_trans near other, fun equal => ?_⟩
      exact (tie (le_antisymm near (equal ▸ other))).imp Fin.ext id
  · rw [ofRank, dif_neg finite]
    have past := nearest.infinite_iff.1 (Nat.le_of_not_lt finite)
    change overflow ≤ signed negative (signed negative q)
    cases negative
    · exact past
    · rwa [signed, signed, if_pos rfl, if_pos rfl, neg_neg]

/-- A ratio is read as the nearest number. -/
theorem nearest_ofRatio (negative : Bool) (num : Nat) (positive : 0 < den) :
    (ofRatio negative num den).Nearest (signed negative (num / den)) :=
  (nearestRank_rankOfUnits num positive).nearest
    (div_nonneg (Nat.cast_nonneg _) (Nat.cast_nonneg _)) negative

end Interchange.Binary64
