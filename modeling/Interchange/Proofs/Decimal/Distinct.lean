import Interchange.Proofs.Decimal.Layout
import Interchange.Proofs.Json.Numeral
import Interchange.Proofs.Text.Quoting

/-!
# Numbers are told apart by their texts

In a layout that marks whole numbers, finite numbers of the same text are the same
(`Layout.write_inj`), and none has the text of an integer (`Layout.not_integral_write`). A text in
positional notation has a point and no exponent, and digits before and behind the point that fix the
value; a text in exponent notation fixes the digits and the exponent one by one.
-/

namespace Interchange.Decimal

open Binary64

namespace Layout

variable {layout : Layout} {d other : Decimal} {digits digits' : List Char}
  {exponent exponent' : Int} {x y : Binary64}

/-! ## Positional notation -/

theorem positional_eq_of_marked (marked : layout.pointZero = true) :
    layout.positional digits exponent = Json.floatLayout.positional digits exponent := by
  rw [positional, positional, marked]
  rfl

/-- Positional notation writes digits, a point and digits, which the decimal may be read from. -/
theorem exists_front (marked : layout.pointZero = true) (d : Decimal) :
    ∃ front fraction : List Char,
      layout.positional (digitChars d.strip.digits) d.strip.leading = front ++ '.' :: fraction ∧
      Json.IsTail front ∧ Json.IsTail fraction ∧
      d.toBinary64 =
        toBinary64 ⟨d.strip.negative, Json.naturalOf (front ++ fraction), -fraction.length⟩ := by
  rw [positional_eq_of_marked marked, ← toBinary64_strip d]
  have zero := d.exponent_strip
  generalize d.strip = d at *
  have value : Json.naturalOf (digitChars d.digits) = d.digits := Json.naturalOf_toDigits d.digits
  have trailing : digitChars d.digits = ['0'] → d.leading = 0 := by
    intro same
    have none : d.digits = 0 := by rw [← value, same]; rfl
    rw [leading, none, zero none, digitCount_zero]
    rfl
  obtain ⟨front, fraction, k, chars, whole, tail, moved, places⟩ :=
    Json.exists_positional (Json.isWhole_toDigits d.digits) (Json.isTail_toDigits d.digits) trailing
  refine ⟨front, fraction, chars, ⟨whole.all, ?_⟩, tail, ?_⟩
  · rcases whole.first with rfl | ⟨c, rest, rfl, -⟩ <;> exact List.cons_ne_nil _ _
  · have shift : -(fraction.length : Int) = d.exponent - k := by
      rw [places, leading, digitCount]
      omega
    rw [moved, shift, toBinary64_shift]
    exact congrArg (fun digits => toBinary64 ⟨d.negative, digits, d.exponent⟩) value.symm

theorem not_mark_mem_positional (all : ∀ c ∈ digits, c.isDigit = true) :
    'e' ∉ layout.positional digits exponent := by
  intro isChar
  rcases mem_positional all isChar with isDigit | isPoint
  · cases isDigit
  · cases isPoint

/-! ## Exponent notation -/

/-- The digits of exponent notation. -/
def mantissa : List Char → List Char
  | [] => []
  | [c] => [c]
  | c :: rest => c :: '.' :: rest

/-- The exponent of exponent notation. -/
def exponentChars (layout : Layout) (exponent : Int) : List Char :=
  (if exponent < 0 then ['-'] else if layout.plusSign then ['+'] else []) ++
    digitChars exponent.natAbs

theorem scientific_eq (layout : Layout) (digits : List Char) (exponent : Int) :
    layout.scientific digits exponent =
      mantissa digits ++ 'e' :: layout.exponentChars exponent := by
  rcases digits with _ | ⟨c, _ | ⟨next, rest⟩⟩ <;> simp [scientific, mantissa, exponentChars]

theorem mantissa_inj (all : ∀ c ∈ digits, c.isDigit = true)
    (all' : ∀ c ∈ digits', c.isDigit = true) (same : mantissa digits = mantissa digits') :
    digits = digits' := by
  rcases digits with _ | ⟨c, _ | ⟨next, rest⟩⟩ <;>
    rcases digits' with _ | ⟨c', _ | ⟨next', rest'⟩⟩ <;> simp_all [mantissa]

theorem isNumeric_mantissa (all : ∀ c ∈ digits, c.isDigit = true) {c : Char}
    (h : c ∈ mantissa digits) : c.isDigit = true ∨ c = '.' := by
  rcases digits with _ | ⟨first, _ | ⟨next, rest⟩⟩
  · cases h
  · exact .inl (all c h)
  · rcases List.mem_cons.1 h with rfl | h
    · exact .inl (all _ List.mem_cons_self)
    · rcases List.mem_cons.1 h with rfl | h
      · exact .inr rfl
      · exact .inl (all c (List.mem_cons_of_mem _ h))

theorem digitChars_inj {m n : Nat} (same : digitChars m = digitChars n) : m = n := by
  have values := congrArg Json.naturalOf same
  rwa [digitChars, digitChars, Json.naturalOf_toDigits, Json.naturalOf_toDigits] at values

/-- A natural begins with a digit. -/
theorem digitChars_ne_cons {n : Nat} {c : Char} {rest : List Char} (other : c.isDigit = false) :
    digitChars n ≠ c :: rest := by
  intro same
  have isDigit := isDigit_of_mem_digitChars (n := n) (same ▸ List.mem_cons_self)
  rw [other] at isDigit
  cases isDigit

theorem exponentChars_inj (same : layout.exponentChars exponent = layout.exponentChars exponent') :
    exponent = exponent' := by
  unfold exponentChars at same
  by_cases negative : exponent < 0 <;> by_cases negative' : exponent' < 0
  · rw [if_pos negative, if_pos negative'] at same
    have := digitChars_inj (List.append_cancel_left same)
    omega
  · rw [if_pos negative, if_neg negative'] at same
    split at same
    · cases same
    · exact absurd same.symm (digitChars_ne_cons rfl)
  · rw [if_neg negative, if_pos negative'] at same
    split at same
    · cases same
    · exact absurd same (digitChars_ne_cons rfl)
  · rw [if_neg negative, if_neg negative'] at same
    have := digitChars_inj (List.append_cancel_left same)
    omega

/-- Exponent notation fixes the digits and the exponent. -/
theorem scientific_inj (all : ∀ c ∈ digits, c.isDigit = true)
    (all' : ∀ c ∈ digits', c.isDigit = true)
    (same : layout.scientific digits exponent = layout.scientific digits' exponent') :
    digits = digits' ∧ exponent = exponent' := by
  have plain {digits : List Char} (all : ∀ c ∈ digits, c.isDigit = true) :
      ∀ c ∈ mantissa digits, (c != 'e') = true := by
    intro c isChar
    rcases isNumeric_mantissa all isChar with isDigit | rfl
    · refine bne_iff_ne.2 ?_
      rintro rfl
      cases isDigit
    · rfl
  have stops {rest : List Char} : ∀ c ∈ ('e' :: rest).head?, (c != 'e') = false := by
    rintro c ⟨⟩
    rfl
  rw [scientific_eq, scientific_eq] at same
  obtain ⟨front, back⟩ :=
    Text.append_inj_of_stops (plain all) (plain all') stops stops same
  exact ⟨mantissa_inj all all' front, exponentChars_inj (List.cons.inj back).2⟩

theorem mark_mem_scientific : 'e' ∈ layout.scientific digits exponent := by
  rw [scientific_eq]
  exact List.mem_append_right _ List.mem_cons_self

/-! ## Whole texts -/

/-- The text of a decimal without its sign. -/
def body (layout : Layout) (d : Decimal) : List Char :=
  if layout.plainFrom ≤ d.strip.leading ∧ d.strip.leading < layout.plainBelow then
    layout.positional (digitChars d.strip.digits) d.strip.leading
  else layout.scientific (digitChars d.strip.digits) d.strip.leading

theorem writeChars_eq (layout : Layout) (d : Decimal) :
    layout.writeChars d = (if d.strip.negative then ['-'] else []) ++ layout.body d := rfl

/-- The text after the sign begins with a digit. -/
theorem exists_digit_body (marked : layout.pointZero = true) (d : Decimal) :
    ∃ c rest, layout.body d = c :: rest ∧ c.isDigit = true := by
  unfold body
  split
  · obtain ⟨front, fraction, chars, isTail, -⟩ := exists_front marked d
    obtain ⟨c, rest, rfl⟩ := List.exists_cons_of_ne_nil isTail.some
    exact ⟨c, _, chars, isTail.all c List.mem_cons_self⟩
  · obtain ⟨c, rest, digits⟩ :=
      List.exists_cons_of_ne_nil (Json.isTail_toDigits d.strip.digits).some
    have isDigit : c.isDigit = true :=
      (Json.isTail_toDigits d.strip.digits).all c (digits ▸ List.mem_cons_self)
    rw [digitChars, digits, scientific_eq]
    rcases rest with _ | ⟨next, rest⟩ <;> exact ⟨c, _, rfl, isDigit⟩

/-- A point or the mark of an exponent is in every text. -/
theorem point_or_mark (marked : layout.pointZero = true) (d : Decimal) :
    '.' ∈ layout.writeChars d ∨ 'e' ∈ layout.writeChars d := by
  have inBody : '.' ∈ layout.body d ∨ 'e' ∈ layout.body d := by
    unfold body
    split
    · obtain ⟨front, fraction, chars, -⟩ := exists_front marked d
      rw [chars]
      exact .inl (List.mem_append_right _ List.mem_cons_self)
    · exact .inr mark_mem_scientific
  rw [writeChars_eq]
  exact inBody.imp (List.mem_append_right _) (List.mem_append_right _)

/-- Decimals of the same text have the same sign and the same text after it. -/
theorem sign_and_body (marked : layout.pointZero = true)
    (same : layout.writeChars d = layout.writeChars other) :
    d.strip.negative = other.strip.negative ∧ layout.body d = layout.body other := by
  rw [writeChars_eq, writeChars_eq] at same
  obtain ⟨c, rest, chars, isDigit⟩ := exists_digit_body marked d
  obtain ⟨c', rest', chars', isDigit'⟩ := exists_digit_body marked other
  cases negative : d.strip.negative <;> cases negative' : other.strip.negative <;>
    rw [negative, negative'] at same
  · exact ⟨rfl, same⟩
  · rw [chars] at same
    cases (List.cons.inj same).1
    cases isDigit
  · rw [chars'] at same
    cases (List.cons.inj same).1
    cases isDigit'
  · exact ⟨rfl, List.append_cancel_left same⟩

/-- Decimals of the same text mean the same number. -/
theorem toBinary64_eq_of_writeChars (marked : layout.pointZero = true)
    (same : layout.writeChars d = layout.writeChars other) : d.toBinary64 = other.toBinary64 := by
  obtain ⟨sign, same⟩ := sign_and_body marked same
  have all (d : Decimal) : ∀ c ∈ digitChars d.strip.digits, c.isDigit = true :=
    fun _ => isDigit_of_mem_digitChars
  unfold body at same
  split at same <;> split at same
  · obtain ⟨front, fraction, chars, isFront, -, reads⟩ := exists_front marked d
    obtain ⟨front', fraction', chars', isFront', -, reads'⟩ := exists_front marked other
    have stops {rest : List Char} : ∀ c ∈ ('.' :: rest).head?, c.isDigit = false := by
      rintro c ⟨⟩
      rfl
    rw [chars, chars'] at same
    obtain ⟨rfl, back⟩ := Text.append_inj_of_stops isFront.all isFront'.all stops stops same
    cases back
    rw [reads, reads', sign]
  · exact absurd (same ▸ mark_mem_scientific) (not_mark_mem_positional (all d))
  · exact absurd (same ▸ mark_mem_scientific) (not_mark_mem_positional (all other))
  · obtain ⟨digits, exponents⟩ := scientific_inj (all d) (all other) same
    have digits := digitChars_inj digits
    rw [leading, leading, digits] at exponents
    have exponents : d.strip.exponent = other.strip.exponent := by omega
    rw [← toBinary64_strip d, ← toBinary64_strip other]
    generalize d.strip = a at *
    generalize other.strip = b at *
    cases a
    cases b
    cases sign
    cases digits
    cases exponents
    rfl

/-- Finite numbers of the same text are the same. -/
theorem write_inj (marked : layout.pointZero = true) (finite : x.isFinite = true)
    (finite' : y.isFinite = true) (same : layout.write x = layout.write y) : x = y := by
  cases x with
  | finite negative rank =>
    cases y with
    | finite negative' rank' =>
      rw [write, write] at same
      rw [← toBinary64_shortest layout.tie layout.candidates negative rank,
        ← toBinary64_shortest layout.tie layout.candidates negative' rank']
      exact toBinary64_eq_of_writeChars marked (String.ofList_inj.1 same)
    | infinity | nan => cases finite'
  | infinity | nan => cases finite

/-- The text of a finite number has more in it than digits and a sign. -/
theorem not_integral_write (marked : layout.pointZero = true) (finite : x.isFinite = true) :
    ∃ c ∈ (layout.write x).toList, c = '.' ∨ c = 'e' := by
  cases x with
  | finite negative rank =>
    rw [write, String.toList_ofList]
    rcases point_or_mark marked (shortest layout.tie layout.candidates negative rank) with
      here | here
    · exact ⟨_, here, .inl rfl⟩
    · exact ⟨_, here, .inr rfl⟩
  | infinity | nan => cases finite

end Layout
end Interchange.Decimal
