import Interchange.Json
import Interchange.Proofs.Decimal.Value

/-!
# Numerals

A number is written as a numeral that means it (`exists_numeral_integer`, `exists_numeral_decimal`):
an integer digit for digit, a decimal with a fraction or an exponent, so that it is not taken for an
integer, and with the same nearest float.
-/

namespace Interchange

/-! ## Digits -/

namespace Json

theorem naturalOf_eq (digits : List Char) : naturalOf digits = Nat.ofDigitChars 10 digits 0 := rfl

theorem naturalOf_toDigits (n : Nat) : naturalOf (Nat.toDigits 10 n) = n :=
  Nat.ofDigitChars_ten_toDigits

theorem naturalOf_append (digits more : List Char) :
    naturalOf (digits ++ more) = naturalOf digits * 10 ^ more.length + naturalOf more := by
  rw [naturalOf_eq, naturalOf_eq, naturalOf_eq, Nat.ofDigitChars_append,
    Nat.ofDigitChars_eq_ofDigitChars_zero, Nat.mul_comm]

theorem naturalOf_zeros (k : Nat) : naturalOf (List.replicate k '0') = 0 := by
  rw [naturalOf_eq, Nat.ofDigitChars_replicate_zero, Nat.mul_zero]

theorem naturalOf_zeros_append (k : Nat) (digits : List Char) :
    naturalOf (List.replicate k '0' ++ digits) = naturalOf digits := by
  rw [naturalOf_append, naturalOf_zeros, Nat.zero_mul, Nat.zero_add]

theorem naturalOf_append_zeros (digits : List Char) (k : Nat) :
    naturalOf (digits ++ List.replicate k '0') = naturalOf digits * 10 ^ k := by
  rw [naturalOf_append, naturalOf_zeros, List.length_replicate, Nat.add_zero]

/-- Digits before a point: a single zero, or digits that do not begin with one. -/
structure IsWhole (digits : List Char) : Prop where
  all : ∀ c ∈ digits, c.isDigit = true
  first : digits = ['0'] ∨ ∃ c rest, digits = c :: rest ∧ c ≠ '0'

/-- Digits after a point or the mark of an exponent: at least one. -/
structure IsTail (digits : List Char) : Prop where
  all : ∀ c ∈ digits, c.isDigit = true
  some : digits ≠ []

theorem isWhole_zero : IsWhole ['0'] where
  all := fun c isDigit => by
    rw [List.mem_singleton.1 isDigit]
    rfl
  first := .inl rfl

theorem isTail_toDigits (n : Nat) : IsTail (Nat.toDigits 10 n) where
  all := fun _ isDigit => Nat.isDigit_of_mem_toDigits (by decide) (by decide) isDigit
  some := Nat.toDigits_ne_nil

theorem first_toDigits {n : Nat} (positive : 0 < n) :
    ∃ c rest, Nat.toDigits 10 n = c :: rest ∧ c ≠ '0' := by
  induction n using Nat.strong_induction_on with
  | _ n ih =>
    by_cases small : n < 10
    · refine ⟨n.digitChar, [], Nat.toDigits_of_lt_base small, fun zero => ?_⟩
      exact Nat.ne_of_gt positive (Nat.digitChar_eq_zero.1 zero)
    · obtain ⟨c, rest, digits, first⟩ := ih (n / 10) (by omega) (by omega)
      refine ⟨c, rest ++ [(n % 10).digitChar], ?_, first⟩
      rw [Nat.toDigits_of_base_le (by decide) (by omega), digits]
      rfl

theorem isWhole_toDigits (n : Nat) : IsWhole (Nat.toDigits 10 n) where
  all := (isTail_toDigits n).all
  first := by
    rcases Nat.eq_zero_or_pos n with rfl | positive
    · exact .inl rfl
    · exact .inr (first_toDigits positive)

/-- A numeral that JSON admits. -/
structure Numeral.Proper (n : Numeral) : Prop where
  whole : IsWhole n.whole
  fraction : ∀ digits ∈ n.fraction, IsTail digits
  exponent : ∀ part ∈ n.exponent, IsTail part.2

/-! ## Integers -/

/-- An integer is written as a numeral without fraction and exponent. -/
theorem exists_numeral_integer (i : Int) :
    ∃ n : Numeral, n.Proper ∧ n.chars = (Number.integer i).chars ∧ n.number = .integer i := by
  refine ⟨⟨decide (i < 0), Nat.toDigits 10 i.natAbs, none, none⟩,
    ⟨isWhole_toDigits _, nofun, nofun⟩, ?_, ?_⟩
  · rw [Number.chars, Int.toString_eq_repr, Int.repr_eq_if, Numeral.chars]
    dsimp only
    by_cases negative : i < 0
    · rw [if_pos (decide_eq_true negative), if_neg (by omega), String.toList_append,
        Nat.toList_repr, show (-i).toNat = i.natAbs by omega]
      simp
    · rw [if_neg (by simpa using negative), if_pos (by omega), Nat.toList_repr,
        show i.toNat = i.natAbs by omega]
      simp
  · rw [Numeral.number]
    dsimp only
    rw [naturalOf_toDigits]
    by_cases negative : i < 0
    · rw [if_pos (decide_eq_true negative)]
      congr 1
      omega
    · rw [if_neg (by simpa using negative)]
      congr 1
      omega

/-! ## Decimals -/

theorem IsWhole.take {digits : List Char} (h : IsWhole digits) {k : Nat} (some : 0 < k) :
    IsWhole (digits.take k) where
  all := fun c isDigit => h.all c (List.mem_of_mem_take isDigit)
  first := by
    obtain ⟨k, rfl⟩ := Nat.exists_eq_add_of_le' some
    rcases h.first with rfl | ⟨c, rest, rfl, nonzero⟩
    · exact .inl (by simp)
    · exact .inr ⟨c, rest.take k, rfl, nonzero⟩

theorem IsWhole.append_zeros {digits : List Char} (h : IsWhole digits) (nonzero : digits ≠ ['0'])
    (k : Nat) : IsWhole (digits ++ List.replicate k '0') where
  all := fun c isDigit => by
    rcases List.mem_append.1 isDigit with here | zero
    · exact h.all c here
    · rw [List.eq_of_mem_replicate zero]
      rfl
  first := by
    obtain ⟨c, rest, rfl, first⟩ := h.first.resolve_left nonzero
    exact .inr ⟨c, rest ++ _, rfl, first⟩

theorem isTail_zeros_append {digits : List Char} (h : IsTail digits) (k : Nat) :
    IsTail (List.replicate k '0' ++ digits) where
  all := fun c isDigit => by
    rcases List.mem_append.1 isDigit with zero | here
    · rw [List.eq_of_mem_replicate zero]
      rfl
    · exact h.all c here
  some := List.append_ne_nil_of_right_ne_nil _ h.some

/-- What positional notation writes is digits, a point and digits, for the same value. -/
theorem exists_positional {digits : List Char} {exponent : Int} (whole : IsWhole digits)
    (tail : IsTail digits) (zero : digits = ['0'] → exponent = 0) :
    ∃ (front fraction : List Char) (k : Nat),
      floatLayout.positional digits exponent = front ++ '.' :: fraction ∧
      IsWhole front ∧ IsTail fraction ∧
      naturalOf (front ++ fraction) = naturalOf digits * 10 ^ k ∧
      -(fraction.length : Int) = exponent + 1 - digits.length - k := by
  rw [Decimal.Layout.positional]
  by_cases small : exponent < 0
  · rw [if_pos small]
    refine ⟨['0'], List.replicate (-exponent - 1).toNat '0' ++ digits, 0, rfl, isWhole_zero,
      isTail_zeros_append tail _, ?_, ?_⟩
    · rw [← List.replicate_one, ← List.append_assoc, List.replicate_append_replicate,
        naturalOf_zeros_append, Nat.pow_zero, Nat.mul_one]
    · rw [List.length_append, List.length_replicate]
      omega
  · rw [if_neg small]
    dsimp only
    by_cases long : (digits.drop (exponent.toNat + 1)).isEmpty = true
    · have short : digits.length ≤ exponent.toNat + 1 :=
        List.drop_eq_nil_iff.1 (List.isEmpty_iff.1 long)
      rw [if_pos long, List.take_of_length_le short]
      refine ⟨digits ++ List.replicate (exponent.toNat + 1 - digits.length) '0', ['0'],
        exponent.toNat + 1 - digits.length + 1, rfl, ?_, ⟨isWhole_zero.all, nofun⟩, ?_, ?_⟩
      · by_cases isZero : digits = ['0']
        · rw [isZero, zero isZero]
          exact isWhole_zero
        · exact whole.append_zeros isZero _
      · rw [List.append_assoc, ← List.replicate_one, List.replicate_append_replicate,
          naturalOf_append_zeros]
      · rw [List.length_singleton]
        omega
    · have more : exponent.toNat + 1 < digits.length := by
        refine Nat.lt_of_not_le fun short => long ?_
        exact List.isEmpty_iff.2 (List.drop_eq_nil_iff.2 short)
      rw [if_neg long, Nat.sub_eq_zero_of_le (Nat.le_of_lt more), List.replicate_zero,
        List.append_nil]
      refine ⟨digits.take (exponent.toNat + 1), digits.drop (exponent.toNat + 1), 0, rfl,
        whole.take (Nat.succ_pos _),
        ⟨fun c isDigit => tail.all c (List.mem_of_mem_drop isDigit), ?_⟩, ?_, ?_⟩
      · exact fun none => long (List.isEmpty_iff.2 none)
      · rw [List.take_append_drop, Nat.pow_zero, Nat.mul_one]
      · rw [List.length_drop]
        omega

/-- What exponent notation writes is a digit, a fraction if there are more digits, and an exponent,
for the same value. -/
theorem exists_scientific {digits : List Char} (exponent : Int) (whole : IsWhole digits)
    (tail : IsTail digits) :
    ∃ (front : List Char) (fraction : Option (List Char)),
      floatLayout.scientific digits exponent =
        Numeral.chars ⟨false, front, fraction,
          some (decide (exponent < 0), Nat.toDigits 10 exponent.natAbs)⟩ ∧
      IsWhole front ∧ (∀ digits ∈ fraction, IsTail digits) ∧
      naturalOf (front ++ fraction.getD []) = naturalOf digits ∧
      (fraction.getD []).length + 1 = digits.length := by
  obtain ⟨c, rest, rfl⟩ := List.exists_cons_of_ne_nil tail.some
  have sign : (if exponent < 0 then ['-'] else if floatLayout.plusSign then ['+'] else []) =
      [if decide (exponent < 0) then '-' else '+'] := by
    by_cases negative : exponent < 0
    · rw [if_pos negative, if_pos (decide_eq_true negative)]
    · have plain : ¬ decide (exponent < 0) = true := by simpa using negative
      rw [if_neg negative, if_neg plain]
      rfl
  have front : IsWhole [c] := whole.take (k := 1) (by decide)
  cases rest with
  | nil =>
    refine ⟨[c], none, ?_, front, nofun, rfl, rfl⟩
    simp [Decimal.Layout.scientific, Decimal.Layout.digitChars, Numeral.chars, sign]
  | cons next more =>
    refine ⟨[c], some (next :: more), ?_, front, ?_, rfl, rfl⟩
    · simp [Decimal.Layout.scientific, Decimal.Layout.digitChars, Numeral.chars, sign]
    · intro digits same
      cases same
      exact ⟨fun c isDigit => tail.all c (List.mem_cons_of_mem _ isDigit), nofun⟩

/-- A decimal is written as a numeral with a fraction or an exponent, for the same float. -/
theorem exists_numeral_decimal (d : Decimal) :
    ∃ n : Numeral, n.Proper ∧ n.chars = (Number.decimal d).chars ∧ n.number = .decimal n.decimal ∧
      n.decimal.toBinary64 = d.toBinary64 := by
  rw [← Decimal.toBinary64_strip d, Number.chars, Decimal.Layout.writeChars]
  have zero := d.exponent_strip
  generalize d.strip = d at *
  have whole := isWhole_toDigits d.digits
  have tail := isTail_toDigits d.digits
  have value := naturalOf_toDigits d.digits
  have trailing : Nat.toDigits 10 d.digits = ['0'] →
      ((Nat.toDigits 10 d.digits).length : Int) + d.exponent - 1 = 0 := by
    intro same
    have none : d.digits = 0 := by rw [← value, same]; rfl
    rw [same, zero none]
    rfl
  rw [Decimal.Layout.digitChars]
  obtain ⟨exponent, same⟩ : ∃ exponent : Int,
    exponent = ((Nat.toDigits 10 d.digits).length : Int) + d.exponent - 1 := ⟨_, rfl⟩
  rw [← same] at trailing ⊢
  by_cases plain : floatLayout.plainFrom ≤ exponent ∧ exponent < floatLayout.plainBelow
  · rw [if_pos plain]
    obtain ⟨front, fraction, k, chars, isWhole, isTail, moved, places⟩ :=
      exists_positional whole tail trailing
    refine ⟨⟨d.negative, front, some fraction, none⟩, ⟨isWhole, ?_, nofun⟩, ?_, rfl, ?_⟩
    · rintro digits ⟨⟩
      exact isTail
    · rw [chars, Numeral.chars]
      simp
    · rw [← Decimal.toBinary64_shift d.negative d.digits k d.exponent, Numeral.decimal]
      dsimp only [Option.getD_some]
      rw [moved, value]
      congr 2
      omega
  · rw [if_neg plain]
    obtain ⟨front, fraction, chars, isWhole, isTail, moved, places⟩ :=
      exists_scientific exponent whole tail
    refine ⟨⟨d.negative, front, fraction,
        some (decide (exponent < 0), Nat.toDigits 10 exponent.natAbs)⟩,
      ⟨isWhole, isTail, ?_⟩, ?_, ?_, ?_⟩
    · rintro part ⟨⟩
      exact isTail_toDigits _
    · rw [chars, Numeral.chars, Numeral.chars]
      simp
    · cases fraction <;> rfl
    · rw [Numeral.decimal]
      dsimp only
      rw [moved, value, naturalOf_toDigits]
      congr 2
      by_cases negative : exponent < 0
      · rw [if_pos (decide_eq_true negative)]
        omega
      · rw [if_neg (by simpa using negative)]
        omega

end Json
end Interchange
