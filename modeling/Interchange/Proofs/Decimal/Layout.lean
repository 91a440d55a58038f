import Interchange.Decimal.Layout
import Interchange.Proofs.Decimal.Value

/-!
# One number in two layouts

Two layouts that choose the same digits write them in the same way wherever both are positional, but
for the point and the zero that one of them puts behind a whole number. So a text without an exponent
and without that ending (`Plain`) is the same in a layout that is always positional and never marks
whole numbers (`Layout.Bare`), and what such a layout writes is plain (`Layout.Bare.write_eq_iff`).
-/

namespace Interchange.Decimal

open Binary64

variable {layout bare : Layout} {d : Decimal} {digits : List Char} {exponent : Int} {x : Binary64}
  {negative : Bool}

/-! ## The digits that are written -/

theorem lt_pow_digitCount (n : Nat) : n < 10 ^ digitCount n :=
  (Nat.length_toDigits_le_iff (by decide) (List.length_pos_iff.2 Nat.toDigits_ne_nil)).1
    (Nat.le_refl _)

theorem digitCount_zero : digitCount 0 = 1 := by
  rw [digitCount, Nat.toDigits_of_lt_base (by decide), List.length_singleton]

/-- No zero is left at the end of the digits. -/
theorem mod_ten_strip (d : Decimal) (nonzero : d.strip.digits ≠ 0) : d.strip.digits % 10 ≠ 0 := by
  have step (fuel : Nat) (d : Decimal) (enough : d.digits < 10 ^ fuel)
      (nonzero : (strip.go fuel d).digits ≠ 0) : (strip.go fuel d).digits % 10 ≠ 0 := by
    induction fuel generalizing d with
    | zero =>
      have zero : d.digits = 0 := Nat.lt_one_iff.1 enough
      rw [strip.go, if_pos zero] at nonzero
      exact absurd zero nonzero
    | succ fuel ih =>
      rw [strip.go] at nonzero ⊢
      split
      · next zero =>
        rw [if_pos zero] at nonzero
        exact absurd zero nonzero
      · next other =>
        rw [if_neg other] at nonzero
        split
        · next trailing =>
          rw [if_pos trailing] at nonzero
          refine ih _ ?_ nonzero
          rw [Nat.pow_succ] at enough
          exact Nat.div_lt_of_lt_mul (by rwa [Nat.mul_comm])
        · next last => exact last
  exact step _ d (lt_pow_digitCount _) nonzero

theorem getLast?_toDigits (n : Nat) : (Nat.toDigits 10 n).getLast? = some (n % 10).digitChar := by
  by_cases small : n < 10
  · rw [Nat.toDigits_of_lt_base small, Nat.mod_eq_of_lt small]
    rfl
  · rw [Nat.toDigits_of_base_le (by decide) (by omega), List.getLast?_append]
    rfl

theorem isDigit_of_mem_digitChars {n : Nat} {c : Char} (h : c ∈ Layout.digitChars n) :
    c.isDigit = true := Nat.isDigit_of_mem_toDigits (by decide) (by decide) h

/-- The exponent of the leading digit. -/
def leading (d : Decimal) : Int := digitCount d.digits + d.exponent - 1

/-- Digits that end in a zero are a single zero. -/
theorem eq_zero_of_getLast? (last : (Layout.digitChars d.strip.digits).getLast? = some '0') :
    Layout.digitChars d.strip.digits = ['0'] ∧ d.strip.leading = 0 := by
  rw [Layout.digitChars, getLast?_toDigits, Option.some.injEq, Nat.digitChar_eq_zero] at last
  have zero : d.strip.digits = 0 := by
    by_contra nonzero
    exact mod_ten_strip d nonzero last
  rw [leading, zero, exponent_strip d zero]
  exact ⟨rfl, rfl⟩

/-- The leading digit of a finite number is in the range of the format. -/
theorem leading_bounds {rank : Fin infiniteRank} (reads : d.toBinary64 = .finite negative rank)
    (nonzero : rank.1 ≠ 0) : -331 ≤ d.leading ∧ d.leading < 311 := by
  have sameRank : d.rank = rank := by
    rw [toBinary64_eq, ofRank] at reads
    generalize d.rank = n at reads
    split at reads
    · cases reads
      rfl
    · cases reads
  unfold Decimal.rank at sameRank
  dsimp only [leading] at sameRank ⊢
  split at sameRank
  · exact absurd sameRank.symm nonzero
  · next least =>
    split at sameRank
    · exact absurd sameRank (Nat.ne_of_gt rank.isLt)
    · omega

theorem leading_shortest (tie : Tie) (candidates : Candidates) (negative : Bool)
    (rank : Fin infiniteRank) : -331 ≤ (shortest tie candidates negative rank).strip.leading ∧
      (shortest tie candidates negative rank).strip.leading < 311 := by
  by_cases zero : rank.1 = 0
  · have same : (shortest tie candidates negative rank).strip = ⟨negative, 0, 0⟩ := by
      rw [shortest, if_pos zero, strip]
      dsimp only
      rw [digitCount_zero, strip.go, if_pos rfl]
    rw [same, leading, digitCount_zero]
    dsimp only
    decide
  · exact leading_bounds ((toBinary64_strip _).trans (toBinary64_shortest ..)) zero

/-! ## The characters of a number -/

/-- A character of a number that is finite. -/
def isNumeric (c : Char) : Bool := c.isDigit || c == '-' || c == '.' || c == 'e' || c == '+'

/-- Nothing but characters of a number. -/
def Numeric (text : String) : Prop := ∀ c ∈ text.toList, isNumeric c = true

instance (text : String) : Decidable (Numeric text) := List.decidableBAll _ _

theorem isNumeric_of_isDigit {c : Char} (h : c.isDigit = true) : isNumeric c = true := by
  rw [isNumeric, h]
  rfl

namespace Layout

theorem mem_positional (all : ∀ c ∈ digits, c.isDigit = true) {c : Char}
    (h : c ∈ layout.positional digits exponent) : c.isDigit = true ∨ c = '.' := by
  have zeros {n : Nat} {c : Char} (h : c ∈ List.replicate n '0') : c.isDigit = true := by
    rw [List.eq_of_mem_replicate h]
    rfl
  unfold positional at h
  split at h
  · simp only [List.mem_append, List.mem_cons, List.not_mem_nil, or_false] at h
    rcases h with ((rfl | rfl) | isZero) | isDigit
    exacts [.inl rfl, .inr rfl, .inl (zeros isZero), .inl (all c isDigit)]
  · simp only [List.mem_append] at h
    rcases h with (isDigit | isZero) | isEnd
    · exact .inl (all c (List.mem_of_mem_take isDigit))
    · exact .inl (zeros isZero)
    · split at isEnd
      · split at isEnd
        · simp only [List.mem_cons, List.not_mem_nil, or_false] at isEnd
          rcases isEnd with rfl | rfl
          exacts [.inr rfl, .inl rfl]
        · cases isEnd
      · rcases List.mem_cons.1 isEnd with rfl | isDigit
        exacts [.inr rfl, .inl (all c (List.mem_of_mem_drop isDigit))]

theorem isNumeric_scientific (all : ∀ c ∈ digits, c.isDigit = true) {c : Char}
    (h : c ∈ layout.scientific digits exponent) : isNumeric c = true := by
  have digit {c : Char} (h : c ∈ digits) := isNumeric_of_isDigit (all c h)
  simp only [scientific, List.mem_append] at h
  rcases h with (((isFirst | isTail) | isMark) | isSign) | isDigit
  · exact digit (List.mem_of_mem_take isFirst)
  · split at isTail
    · cases isTail
    · rcases List.mem_cons.1 isTail with rfl | isDigit
      · rfl
      · exact digit (List.mem_of_mem_drop isDigit)
  · rw [List.mem_singleton.1 isMark]
    rfl
  · split at isSign
    · rw [List.mem_singleton.1 isSign]
      rfl
    · split at isSign
      · rw [List.mem_singleton.1 isSign]
        rfl
      · cases isSign
  · exact isNumeric_of_isDigit (isDigit_of_mem_digitChars isDigit)

theorem numeric_write (layout : Layout) (finite : x.isFinite = true) : Numeric (layout.write x) := by
  cases x with
  | finite negative rank =>
    rw [Numeric, write, String.toList_ofList]
    intro c isChar
    simp only [writeChars, List.mem_append] at isChar
    rcases isChar with isSign | isChar
    · split at isSign
      · rw [List.mem_singleton.1 isSign]
        rfl
      · cases isSign
    · split at isChar
      · rcases mem_positional (fun _ => isDigit_of_mem_digitChars) isChar with isDigit | rfl
        exacts [isNumeric_of_isDigit isDigit, rfl]
      · exact isNumeric_scientific (fun _ => isDigit_of_mem_digitChars) isChar
  | infinity | nan => cases finite

end Layout

/-! ## Plain texts -/

/-- The text has no exponent and does not mark a whole number by a point and a zero. -/
def Plain (text : List Char) : Prop := 'e' ∉ text ∧ ¬ ['.', '0'] <:+ text

instance (text : List Char) : Decidable (Plain text) := inferInstanceAs (Decidable (_ ∧ _))

theorem plain_sign {text : List Char} :
    Plain ((if negative then ['-'] else []) ++ text) ↔ Plain text := by
  cases negative with
  | false => exact Iff.rfl
  | true =>
    refine and_congr ?_ (not_congr ?_)
    · simp
    · simp [List.suffix_cons_iff]

namespace Layout

theorem not_plain_scientific : ¬ Plain (layout.scientific digits exponent) := by
  rintro ⟨positional, -⟩
  exact positional (by simp [scientific])

/-- Positional notation differs in nothing but the mark of a whole number. -/
theorem positional_cases (unmarked : bare.pointZero = false) :
    layout.positional digits exponent = bare.positional digits exponent ∨
      layout.positional digits exponent = bare.positional digits exponent ++ ['.', '0'] := by
  unfold positional
  split
  · exact .inl rfl
  · rw [unmarked]
    cases layout.pointZero with
    | false => exact .inl rfl
    | true =>
      simp only [if_true, Bool.false_eq_true, if_false]
      split
      · exact .inr (by simp)
      · exact .inl rfl

theorem plain_positional (unmarked : bare.pointZero = false)
    (all : ∀ c ∈ digits, c.isDigit = true) (some : digits ≠ [])
    (last : digits.getLast? = .some '0' → digits = ['0'] ∧ exponent = 0) :
    Plain (bare.positional digits exponent) := by
  have notDigit {c : Char} (isDigit : c.isDigit = true) : c ≠ '.' ∧ c ≠ 'e' := by
    constructor <;> rintro rfl <;> cases isDigit
  refine ⟨fun isChar => ?_, fun ends => ?_⟩
  · rcases mem_positional all isChar with isDigit | isPoint
    · exact (notDigit isDigit).2 rfl
    · cases isPoint
  · obtain ⟨isChar, isLast⟩ : '.' ∈ bare.positional digits exponent ∧
        (bare.positional digits exponent).getLast? = .some '0' := by
      obtain ⟨before, same⟩ := ends
      rw [← same]
      simp
    obtain ⟨c, found⟩ : ∃ c, digits.getLast? = .some c := ⟨_, List.getLast?_eq_some_getLast some⟩
    unfold positional at isChar isLast
    split at isLast
    · next small =>
      -- The last digit is the last of the number, and so it is no zero.
      rw [List.getLast?_append, found, Option.some_or] at isLast
      exact absurd (last (found.trans isLast)).2 (Int.ne_of_lt small)
    · next whole =>
      rw [if_neg whole] at isChar
      dsimp only at isChar isLast
      by_cases none : (digits.drop (exponent.toNat + 1)).isEmpty = true
      · rw [if_pos none, unmarked] at isChar
        simp only [Bool.false_eq_true, if_false, List.append_nil, List.mem_append] at isChar
        rcases isChar with isDigit | isZero
        · exact (notDigit (all _ (List.mem_of_mem_take isDigit))).1 rfl
        · cases List.eq_of_mem_replicate isZero
      · have fraction := mt List.isEmpty_iff.2 none
        have short : ¬ digits.length ≤ exponent.toNat + 1 := mt List.drop_eq_nil_iff.2 fraction
        rw [if_neg none, List.getLast?_append, List.getLast?_cons_of_ne_nil fraction,
          List.getLast?_drop, if_neg short, found, Option.some_or] at isLast
        rw [(last (found.trans isLast)).1] at short
        exact short (Nat.le_add_left _ _)

/-! ## Two layouts -/

/-- A layout that is positional for every finite number and does not mark whole ones. -/
structure Bare (layout : Layout) : Prop where
  plainFrom : layout.plainFrom ≤ -331
  plainBelow : 311 ≤ layout.plainBelow
  unmarked : layout.pointZero = false

/-- Two layouts choose the same digits. -/
structure SameDigits (layout bare : Layout) : Prop where
  tie : layout.tie = bare.tie
  candidates : layout.candidates = bare.candidates

namespace Bare

variable (isBare : bare.Bare) (least : -331 ≤ d.strip.leading) (greatest : d.strip.leading < 311)
include isBare least greatest

theorem writeChars_eq : bare.writeChars d = (if d.strip.negative then ['-'] else []) ++
    bare.positional (digitChars d.strip.digits) d.strip.leading := by
  rw [writeChars]
  refine congrArg _ (if_pos ⟨?_, ?_⟩)
  · exact Int.le_trans isBare.plainFrom least
  · exact Int.lt_of_lt_of_le greatest isBare.plainBelow

theorem plain_writeChars : Plain (bare.writeChars d) := by
  rw [isBare.writeChars_eq least greatest, plain_sign]
  exact plain_positional isBare.unmarked (fun _ => isDigit_of_mem_digitChars)
    Nat.toDigits_ne_nil (eq_zero_of_getLast? (d := d))

/-- A plain text is the one without marks. -/
theorem writeChars_eq_of_plain (plain : Plain (layout.writeChars d)) :
    layout.writeChars d = bare.writeChars d := by
  rw [isBare.writeChars_eq least greatest]
  rw [writeChars] at plain ⊢
  rw [plain_sign] at plain
  refine congrArg _ ?_
  split
  · next inside =>
    rw [if_pos inside] at plain
    rcases positional_cases isBare.unmarked with same | marked
    · exact same
    · rw [marked] at plain
      exact absurd (List.suffix_append _ _) plain.2
  · next outside =>
    rw [if_neg outside] at plain
    exact absurd plain not_plain_scientific

end Bare

theorem Bare.plain_write (isBare : bare.Bare) (finite : x.isFinite = true) :
    Plain (bare.write x).toList := by
  cases x with
  | finite negative rank =>
    obtain ⟨least, greatest⟩ := leading_shortest bare.tie bare.candidates negative rank
    rw [write, String.toList_ofList]
    exact isBare.plain_writeChars least greatest
  | infinity | nan => cases finite

/-- A finite number has the same text in both layouts exactly when the one that may mark whole
numbers and use exponents writes it plainly. -/
theorem Bare.write_eq_iff (isBare : bare.Bare) (same : layout.SameDigits bare)
    (finite : x.isFinite = true) :
    layout.write x = bare.write x ↔ Plain (layout.write x).toList := by
  refine ⟨fun equal => equal ▸ isBare.plain_write finite, fun plain => ?_⟩
  cases x with
  | finite negative rank =>
    obtain ⟨least, greatest⟩ := leading_shortest bare.tie bare.candidates negative rank
    rw [write, String.toList_ofList, same.tie, same.candidates] at plain
    rw [write, write, same.tie, same.candidates]
    exact congrArg _ (isBare.writeChars_eq_of_plain least greatest plain)
  | infinity | nan => cases finite

end Layout

end Interchange.Decimal
