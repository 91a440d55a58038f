import Mathlib.Data.List.TakeWhile
import Interchange.Json.Parser
import Interchange.Json.Printer
import Interchange.Proofs.Json.Numeral

/-!
# Reading lexemes

A proper numeral is read whatever follows that no number goes on with (`numeral_magnitude`), and the
written form of a string is read as the string (`stringBody_chars`).
-/

namespace Interchange.Json

variable {rest : List Char} {c : Char}

/-! ## Blanks and ends -/

/-- Nothing but blanks. -/
def Blank (cs : List Char) : Prop := ∀ c ∈ cs, isBlank c = true

/-- Nothing, or what may follow a value. -/
def Ends (rest : List Char) : Prop :=
  ∀ c ∈ rest.head?, isBlank c = true ∨ c = ',' ∨ c = ']' ∨ c = '\x7d'

theorem skipBlanks_append {blanks : List Char} (blank : Blank blanks) (rest : List Char) :
    skipBlanks (blanks ++ rest) = skipBlanks rest := List.dropWhile_append_of_pos blank

theorem skipBlanks_cons (visible : isBlank c = false) (rest : List Char) :
    skipBlanks (c :: rest) = c :: rest := List.dropWhile_cons_of_neg (by simp [visible])

theorem skipBlanks_append_cons {blanks : List Char} (blank : Blank blanks)
    (visible : isBlank c = false) (rest : List Char) :
    skipBlanks (blanks ++ c :: rest) = c :: rest := by
  rw [skipBlanks_append blank, skipBlanks_cons visible]

/-- A character that a number does not go on with. -/
structure StopsNumber (c : Char) : Prop where
  digit : c.isDigit = false
  point : c ≠ '.'
  mark : isExponentMark c = false

theorem Ends.stops (h : Ends rest) : ∀ c ∈ rest.head?, StopsNumber c := by
  intro c isHead
  rcases h c isHead with blank | rfl | rfl | rfl
  · simp only [isBlank, Bool.or_eq_true, decide_eq_true_eq] at blank
    rcases blank with ((rfl | rfl) | rfl) | rfl <;> exact ⟨by decide, by decide, by decide⟩
  all_goals exact ⟨by decide, by decide, by decide⟩

/-! ## Numbers -/

theorem takeDigits_append {digits : List Char} (all : ∀ c ∈ digits, c.isDigit = true)
    (stops : ∀ c ∈ rest.head?, c.isDigit = false) :
    takeDigits (digits ++ rest) = (digits, rest) := by
  rw [takeDigits, List.takeWhile_append_of_pos all, List.dropWhile_append_of_pos all]
  cases rest with
  | nil => simp
  | cons c rest =>
    have stop : ¬ c.isDigit = true := by simp [stops c rfl]
    rw [List.takeWhile_cons_of_neg stop, List.dropWhile_cons_of_neg stop, List.append_nil]

theorem wholeDigits_append {digits : List Char} (whole : IsWhole digits)
    (stops : ∀ c ∈ rest.head?, c.isDigit = false) :
    wholeDigits (digits ++ rest) = .ok (digits, rest) := by
  rcases whole.first with rfl | ⟨c, more, rfl, nonzero⟩
  · cases rest with
    | nil => rfl
    | cons c rest =>
      have stop : ¬ c.isDigit = true := by simp [stops c rfl]
      exact if_neg stop
  · have all : ∀ c ∈ more, c.isDigit = true := fun c isDigit =>
      whole.all c (List.mem_cons_of_mem _ isDigit)
    rw [List.cons_append, wholeDigits, takeDigits_append all stops]
    · exact if_pos (whole.all c List.mem_cons_self)
    · rintro ⟨⟩
      exact nonzero rfl

theorem fractionDigits_append {digits : List Char} (tail : IsTail digits)
    (stops : ∀ c ∈ rest.head?, c.isDigit = false) :
    fractionDigits (digits ++ rest) = .ok (digits, rest) := by
  obtain ⟨c, more, rfl⟩ := List.exists_cons_of_ne_nil tail.some
  rw [fractionDigits, takeDigits_append tail.all stops]

theorem exponentPart_append {digits : List Char} (negative : Bool) (tail : IsTail digits)
    (stops : ∀ c ∈ rest.head?, c.isDigit = false) :
    exponentPart ((if negative then '-' else '+') :: digits ++ rest) =
      .ok ((negative, digits), rest) := by
  obtain ⟨c, more, rfl⟩ := List.exists_cons_of_ne_nil tail.some
  have all : ∀ c ∈ more, c.isDigit = true := fun c isDigit =>
    tail.all c (List.mem_cons_of_mem _ isDigit)
  have first : c.isDigit = true := tail.all c List.mem_cons_self
  cases negative <;> simp [exponentPart, first, takeDigits_append all stops]

/-- The characters of a fraction. -/
def fractionChars : Option (List Char) → List Char
  | none => []
  | some digits => '.' :: digits

/-- The characters of an exponent. -/
def exponentChars : Option (Bool × List Char) → List Char
  | none => []
  | some (negative, digits) => 'e' :: (if negative then '-' else '+') :: digits

/-- The characters of a numeral without its sign. -/
def Numeral.magnitude (n : Numeral) : List Char :=
  n.whole ++ (fractionChars n.fraction ++ exponentChars n.exponent)

theorem Numeral.chars_eq (n : Numeral) :
    n.chars = (if n.negative then ['-'] else []) ++ n.magnitude := by
  obtain ⟨negative, whole, fraction, exponent⟩ := n
  cases fraction <;> cases exponent <;> simp [chars, magnitude, fractionChars, exponentChars]

theorem optionalExponent_append {exponent : Option (Bool × List Char)}
    (tails : ∀ part ∈ exponent, IsTail part.2) (stops : ∀ c ∈ rest.head?, StopsNumber c) :
    optionalExponent (exponentChars exponent ++ rest) = .ok (exponent, rest) := by
  cases exponent with
  | none =>
    cases rest with
    | nil => rfl
    | cons c rest =>
      have stop : ¬ isExponentMark c = true := by simp [(stops c rfl).mark]
      exact if_neg stop
  | some part =>
    obtain ⟨negative, digits⟩ := part
    have read := exponentPart_append negative (tails _ rfl) fun c isHead => (stops c isHead).digit
    rw [exponentChars, List.cons_append, optionalExponent, if_pos (by decide), read]
    rfl

theorem optionalFraction_append {fraction : Option (List Char)}
    (tails : ∀ digits ∈ fraction, IsTail digits)
    (stops : ∀ c ∈ rest.head?, c.isDigit = false ∧ c ≠ '.') :
    optionalFraction (fractionChars fraction ++ rest) = .ok (fraction, rest) := by
  cases fraction with
  | none =>
    cases rest with
    | nil => rfl
    | cons c rest =>
      rw [fractionChars, List.nil_append, optionalFraction]
      rintro _ ⟨⟩
      exact (stops _ rfl).2 rfl
  | some digits =>
    have read := fractionDigits_append (tails _ rfl) fun c isHead => (stops c isHead).1
    rw [fractionChars, List.cons_append, optionalFraction, read]
    rfl

theorem head_exponentChars (exponent : Option (Bool × List Char))
    (stops : ∀ c ∈ rest.head?, StopsNumber c) :
    ∀ c ∈ (exponentChars exponent ++ rest).head?, c.isDigit = false ∧ c ≠ '.' := by
  cases exponent with
  | none => exact fun c isHead => ⟨(stops c isHead).digit, (stops c isHead).point⟩
  | some part =>
    rintro c ⟨⟩
    exact ⟨by decide, by decide⟩

theorem head_fractionChars (fraction : Option (List Char))
    (stops : ∀ c ∈ rest.head?, c.isDigit = false) :
    ∀ c ∈ (fractionChars fraction ++ rest).head?, c.isDigit = false := by
  cases fraction with
  | none => exact stops
  | some digits =>
    rintro c ⟨⟩
    decide

/-- A proper numeral is read after its sign. -/
theorem numeral_magnitude {n : Numeral} (proper : n.Proper)
    (stops : ∀ c ∈ rest.head?, StopsNumber c) :
    numeral n.negative (n.magnitude ++ rest) = .ok (n, rest) := by
  have behind := head_exponentChars n.exponent stops
  have whole := wholeDigits_append proper.whole
    (head_fractionChars n.fraction fun c isHead => (behind c isHead).1)
  have fraction := optionalFraction_append proper.fraction behind
  have exponent := optionalExponent_append proper.exponent stops
  rw [numeral, Numeral.magnitude, List.append_assoc, List.append_assoc, whole]
  change (optionalFraction _ >>= _) = _
  rw [fraction]
  change (optionalExponent _ >>= _) = _
  rw [exponent]
  rfl

/-! ## Strings -/

theorem hexDigits?_hexOfNumber {n : Nat} (small : n < 65536) (rest : List Char) :
    hexDigits? (Text.hexOfNumber 4 n ++ rest) = some (n, rest) := by
  have value : ((n / 16 / 16 / 16 % 16 * 16 + n / 16 / 16 % 16) * 16 + n / 16 % 16) * 16 +
      n % 16 = n := by
    omega
  simp [Text.hexOfNumber, hexDigits?, Text.hexValue?_hexDigit, value]

theorem codePointEscape_control (control : c.toNat < 0x20) (rest : List Char) :
    codePointEscape (Text.hexOfNumber 4 c.toNat ++ rest) = .ok (c, rest) := by
  have digits := hexDigits?_hexOfNumber (n := c.toNat) (by omega) rest
  have trailing : ¬ (0xDC00 ≤ c.toNat ∧ c.toNat ≤ 0xDFFF) := by omega
  have leading : ¬ (0xD800 ≤ c.toNat ∧ c.toNat ≤ 0xDBFF) := by omega
  have read : hexEscape (Text.hexOfNumber 4 c.toNat ++ rest) = .ok (c.toNat, rest) := by
    rw [hexEscape, digits]
  rw [codePointEscape, read]
  change (if _ then _ else _) = _
  rw [if_neg trailing, if_neg leading, Char.ofNat_toNat]
  rfl

/-- The written form of a character is the character, or an escape that is read as it. -/
theorem stringChar_cases (c : Char) :
    (stringChar c = [c] ∧ c ≠ '"' ∧ c ≠ '\\' ∧ ¬ c.toNat < 0x20) ∨
    ∃ body, stringChar c = '\\' :: body ∧ ∀ rest, escape (body ++ rest) = .ok (c, rest) := by
  by_cases quote : c = '"'
  · exact .inr ⟨['"'], by simp [stringChar, quote], fun rest => by rw [quote]; rfl⟩
  by_cases backslash : c = '\\'
  · exact .inr ⟨['\\'], by simp [stringChar, backslash], fun rest => by rw [backslash]; rfl⟩
  by_cases backspace : c = '\x08'
  · exact .inr ⟨['b'], by simp [stringChar, backspace], fun rest => by rw [backspace]; rfl⟩
  by_cases feed : c = '\x0c'
  · exact .inr ⟨['f'], by simp [stringChar, feed], fun rest => by rw [feed]; rfl⟩
  by_cases line : c = '\n'
  · exact .inr ⟨['n'], by simp [stringChar, line], fun rest => by rw [line]; rfl⟩
  by_cases carriage : c = '\r'
  · exact .inr ⟨['r'], by simp [stringChar, carriage], fun rest => by rw [carriage]; rfl⟩
  by_cases tab : c = '\t'
  · exact .inr ⟨['t'], by simp [stringChar, tab], fun rest => by rw [tab]; rfl⟩
  by_cases control : c.toNat < 0x20
  · refine .inr ⟨'u' :: Text.hexOfNumber 4 c.toNat, ?_, codePointEscape_control control⟩
    simp [stringChar, quote, backslash, backspace, feed, line, carriage, tab, control]
  · refine .inl ⟨?_, quote, backslash, control⟩
    simp [stringChar, quote, backslash, backspace, feed, line, carriage, tab, control]

/-- The written form of characters is read to the closing quote. -/
theorem stringBodyChars_append (cs : List Char) (rest : List Char) {fuel : Nat}
    (enough : cs.length < fuel) :
    stringBodyChars fuel (cs.flatMap stringChar ++ '"' :: rest) = .ok (cs, rest) := by
  induction cs generalizing fuel with
  | nil =>
    obtain ⟨fuel, rfl⟩ := Nat.exists_eq_succ_of_ne_zero (Nat.ne_of_gt enough)
    rfl
  | cons c cs ih =>
    obtain ⟨fuel, rfl⟩ := Nat.exists_eq_succ_of_ne_zero (Nat.ne_zero_of_lt enough)
    have more := ih (Nat.lt_of_succ_lt_succ enough)
    rw [List.flatMap_cons, List.append_assoc]
    rcases stringChar_cases c with ⟨plain, quote, backslash, control⟩ | ⟨body, escaped, read⟩
    · rw [plain, List.singleton_append, stringBodyChars, if_neg control, more]
      · rfl
      · exact fun same => quote same
      · exact fun same => backslash same
    · rw [escaped, List.cons_append, stringBodyChars, read]
      change (stringBodyChars _ _ >>= _) = _
      rw [more]
      rfl

theorem stringChar_ne_nil (c : Char) : stringChar c ≠ [] := by
  rcases stringChar_cases c with ⟨plain, -⟩ | ⟨body, escaped, -⟩
  · rw [plain]
    nofun
  · rw [escaped]
    nofun

theorem length_le_flatMap_stringChar (cs : List Char) :
    cs.length ≤ (cs.flatMap stringChar).length := by
  induction cs with
  | nil => exact Nat.le_refl _
  | cons c cs ih =>
    have first := List.length_pos_iff.2 (stringChar_ne_nil c)
    rw [List.flatMap_cons, List.length_append, List.length_cons]
    omega

/-- The written form of a string is read after its opening quote. -/
theorem stringBody_chars (s : String) (rest : List Char) :
    stringBody (s.toList.flatMap stringChar ++ '"' :: rest) = .ok (s, rest) := by
  have enough := length_le_flatMap_stringChar s.toList
  rw [stringBody, stringBodyChars_append]
  · change Except.ok (String.ofList s.toList, rest) = _
    rw [String.ofList_toList]
  · rw [List.length_append]
    omega

end Interchange.Json
