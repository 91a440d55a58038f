import Mathlib.Data.List.Nodup
import Interchange.Proofs.Decimal.Distinct
import Interchange.Store.Display

/-!
# Texts of scalars

What is displayed of a scalar tells which scalar it is and where its text ends, if nothing follows
or what may follow a part of a container (`displayScalar_append_inj`). Texts and bytes have quotes
around them; the words for the other scalars have nothing in them that ends a part, and they differ:
an integer has digits alone, a finite float a point or an exponent, and the rest have letters. Times
are left out: they may be displayed as other times are.
-/

namespace Interchange.Store

variable {v w : Value} {x : Binary64} {rest rest' : List Char}

/-- Characters that may follow a part of a container: they separate parts or close it. -/
def isStop (c : Char) : Bool := c == ',' || c == ':' || c == ']' || c == ')' || c == '\x7d'

theorem eq_of_isStop {c : Char} (stop : isStop c = true) :
    c = ',' ∨ c = ':' ∨ c = ']' ∨ c = ')' ∨ c = '\x7d' := by
  simpa [isStop, or_assoc] using stop

/-- Nothing, or what may follow a part of a container. -/
def Follows (rest : List Char) : Prop := ∀ c ∈ rest.head?, isStop c = true

/-! ## Words -/

/-- Scalars that have a word of their own. -/
def namedScalars : List Value := [.nothing, .bool true, .bool false, .float .nan,
  .float (.infinity false), .float (.infinity true)]

/-- What is displayed of them, in the same order. -/
def namedWords : List (List Char) := [['N', 'o', 'n', 'e'], ['T', 'r', 'u', 'e'],
  ['F', 'a', 'l', 's', 'e'], ['n', 'a', 'n'], ['+', 'i', 'n', 'f'], ['-', 'i', 'n', 'f']]

/-- A scalar that is displayed as a word. -/
inductive Word : Value → Prop
  | named {v : Value} (isNamed : v ∈ namedScalars) : Word v
  | int (i : Int) : Word (.int i)
  | float {x : Binary64} (finite : x.isFinite = true) : Word (.float x)

/-- A scalar that is no time is displayed as a word, or it is a text or bytes. -/
theorem word_or_quoted (scalar : v.identity? = none) (timeless : ∀ t, v ≠ .time t) :
    Word v ∨ (∃ text, v = .string text) ∨ ∃ bytes, v = .bytes bytes := by
  cases v with
  | nothing => exact .inl (.named (by decide))
  | bool b => cases b <;> exact .inl (.named (by decide))
  | int i => exact .inl (.int i)
  | float x =>
    cases x with
    | nan => exact .inl (.named (by decide))
    | infinity negative => cases negative <;> exact .inl (.named (by decide))
    | finite => exact .inl (.float rfl)
  | string text => exact .inr (.inl ⟨text, rfl⟩)
  | bytes bytes => exact .inr (.inr ⟨bytes, rfl⟩)
  | time t => exact absurd rfl (timeless t)
  | object => cases scalar

theorem map_displayScalar_named : namedScalars.map displayScalar = namedWords := by
  simp [namedScalars, namedWords, displayScalar, floatLayout, Decimal.Layout.write]

theorem displayScalar_mem_namedWords (isNamed : v ∈ namedScalars) :
    displayScalar v ∈ namedWords :=
  map_displayScalar_named ▸ List.mem_map_of_mem isNamed

theorem named_inj (isNamed : v ∈ namedScalars) (isNamed' : w ∈ namedScalars)
    (same : displayScalar v = displayScalar w) : v = w := by
  have apart : (namedScalars.map displayScalar).Nodup := by
    rw [map_displayScalar_named]
    decide
  exact List.inj_on_of_nodup_map apart isNamed isNamed' same

/-- A word of its own has a letter that no number has. -/
theorem not_numeric_namedWords :
    ∀ word ∈ namedWords, word.any (!Decimal.isNumeric ·) = true := by
  decide

/-- An integer is displayed as the exponent of a float is. -/
theorem displayScalar_int (i : Int) : displayScalar (.int i) = floatLayout.exponentChars i := by
  rw [displayScalar, Int.toString_eq_repr, Int.repr_eq_if, Decimal.Layout.exponentChars]
  by_cases negative : i < 0
  · rw [if_neg (by omega), if_pos negative, String.toList_append, Nat.toList_repr,
      show (-i).toNat = i.natAbs by omega]
    rfl
  · rw [if_pos (by omega), if_neg negative, Nat.toList_repr, show i.toNat = i.natAbs by omega]
    rfl

theorem digit_or_sign (i : Int) : ∀ c ∈ displayScalar (.int i), c.isDigit = true ∨ c = '-' := by
  intro c isChar
  rw [displayScalar_int] at isChar
  rcases List.mem_append.1 isChar with isSign | isDigit
  · split at isSign
    · exact .inr (List.mem_singleton.1 isSign)
    · cases isSign
  · exact .inl (Decimal.isDigit_of_mem_digitChars isDigit)

theorem numeric_int (i : Int) : ∀ c ∈ displayScalar (.int i), Decimal.isNumeric c = true := by
  intro c isChar
  rcases digit_or_sign i c isChar with isDigit | rfl
  · exact Decimal.isNumeric_of_isDigit isDigit
  · rfl

theorem numeric_float (finite : x.isFinite = true) :
    ∀ c ∈ displayScalar (.float x), Decimal.isNumeric c = true :=
  Decimal.Layout.numeric_write floatLayout finite

/-- A float has a point or an exponent. -/
theorem not_integral_float (finite : x.isFinite = true) :
    ∃ c ∈ displayScalar (.float x), c = '.' ∨ c = 'e' :=
  Decimal.Layout.not_integral_write rfl finite

/-- An integer has neither. -/
theorem integral_int (i : Int) : ∀ c ∈ displayScalar (.int i), ¬ (c = '.' ∨ c = 'e') := by
  intro c isChar
  rcases digit_or_sign i c isChar with isDigit | rfl
  · rintro (rfl | rfl) <;> cases isDigit
  · decide

/-- Words tell which scalars they are of. -/
theorem Word.inj (word : Word v) (word' : Word w) (same : displayScalar v = displayScalar w) :
    v = w := by
  have lettered {v w : Value} (isNamed : v ∈ namedScalars)
      (numeric : ∀ c ∈ displayScalar w, Decimal.isNumeric c = true)
      (same : displayScalar v = displayScalar w) : v = w := by
    obtain ⟨c, isChar, other⟩ := List.any_eq_true.1
      (not_numeric_namedWords _ (displayScalar_mem_namedWords isNamed))
    rw [numeric c (same ▸ isChar)] at other
    cases other
  have pointed {i : Int} {x : Binary64} (finite : x.isFinite = true)
      (same : displayScalar (.int i) = displayScalar (.float x)) : (.int i : Value) = .float x := by
    obtain ⟨c, isChar, either⟩ := not_integral_float finite
    exact absurd either (integral_int i c (same ▸ isChar))
  cases word with
  | named isNamed =>
    cases word' with
    | named isNamed' => exact named_inj isNamed isNamed' same
    | int i => exact lettered isNamed (numeric_int i) same
    | float finite => exact lettered isNamed (numeric_float finite) same
  | int i =>
    cases word' with
    | named isNamed' => exact (lettered isNamed' (numeric_int i) same.symm).symm
    | int j =>
      rw [displayScalar_int, displayScalar_int] at same
      exact congrArg Value.int (Decimal.Layout.exponentChars_inj same)
    | float finite => exact pointed finite same
  | float finite =>
    cases word' with
    | named isNamed' => exact (lettered isNamed' (numeric_float finite) same.symm).symm
    | int i => exact (pointed finite same.symm).symm
    | float finite' =>
      exact congrArg Value.float
        (Decimal.Layout.write_inj rfl finite finite' (String.toList_inj.1 same))

/-- Nothing in a word ends a part of a container. -/
theorem Word.not_stop (word : Word v) : ∀ c ∈ displayScalar v, (!isStop c) = true := by
  have number {c : Char} (numeric : Decimal.isNumeric c = true) : (!isStop c) = true := by
    rw [Bool.not_eq_true', Bool.eq_false_iff]
    intro stop
    rcases eq_of_isStop stop with rfl | rfl | rfl | rfl | rfl <;> cases numeric
  cases word with
  | named isNamed =>
    have table : ∀ word ∈ namedWords, word.all (!isStop ·) = true := by decide
    exact List.all_eq_true.1 (table _ (displayScalar_mem_namedWords isNamed))
  | int i => exact fun c isChar => number (numeric_int i c isChar)
  | float finite => exact fun c isChar => number (numeric_float finite c isChar)

/-! ## First characters -/

/-- A word begins with a character of a number or with one of four letters. -/
def beginsWord (c : Char) : Bool :=
  Decimal.isNumeric c || c == 'N' || c == 'T' || c == 'F' || c == 'n'

theorem Word.begins (word : Word v) :
    ∃ c more, displayScalar v = c :: more ∧ beginsWord c = true := by
  have number {v : Value} (numeric : ∀ c ∈ displayScalar v, Decimal.isNumeric c = true)
      (some : displayScalar v ≠ []) :
      ∃ c more, displayScalar v = c :: more ∧ beginsWord c = true := by
    obtain ⟨c, more, first⟩ := List.exists_cons_of_ne_nil some
    refine ⟨c, more, first, ?_⟩
    rw [beginsWord, numeric c (first ▸ List.mem_cons_self)]
    rfl
  cases word with
  | named isNamed =>
    have table : ∀ word ∈ namedWords, word.head?.any beginsWord = true := by decide
    have first := table _ (displayScalar_mem_namedWords isNamed)
    cases text : displayScalar v with
    | nil => rw [text] at first; cases first
    | cons c more => rw [text] at first; exact ⟨c, more, rfl, first⟩
  | int i =>
    refine number (numeric_int i) ?_
    rw [displayScalar_int]
    exact List.append_ne_nil_of_right_ne_nil _ Nat.toDigits_ne_nil
  | float finite =>
    obtain ⟨c, isChar, -⟩ := not_integral_float finite
    exact number (numeric_float finite) (List.ne_nil_of_mem isChar)

/-- The first characters of scalars. -/
def beginsScalar (c : Char) : Bool := beginsWord c || c == '"' || c == 'b'

theorem first_of_string (text : String) : ∃ more, displayScalar (.string text) = '"' :: more :=
  ⟨_, by rw [displayScalar, Text.quote, String.toList_ofList]; rfl⟩

theorem first_of_bytes (bytes : List UInt8) : ∃ more, displayScalar (.bytes bytes) = 'b' :: more :=
  ⟨_, by rw [displayScalar, Text.byteLiteral, String.toList_ofList]; rfl⟩

theorem exists_first_of_scalar (scalar : v.identity? = none) (timeless : ∀ t, v ≠ .time t) :
    ∃ c more, displayScalar v = c :: more ∧ beginsScalar c = true := by
  rcases word_or_quoted scalar timeless with word | ⟨text, rfl⟩ | ⟨bytes, rfl⟩
  · obtain ⟨c, more, first, begins⟩ := word.begins
    exact ⟨c, more, first, by rw [beginsScalar, begins]; rfl⟩
  · obtain ⟨more, first⟩ := first_of_string text
    exact ⟨'"', more, first, by decide⟩
  · obtain ⟨more, first⟩ := first_of_bytes bytes
    exact ⟨'b', more, first, by decide⟩

/-! ## All scalars -/

/-- What is displayed of scalars tells which they are and where it ends. -/
theorem displayScalar_append_inj (scalar : v.identity? = none) (timeless : ∀ t, v ≠ .time t)
    (scalar' : w.identity? = none) (timeless' : ∀ t, w ≠ .time t) (follows : Follows rest)
    (follows' : Follows rest') (same : displayScalar v ++ rest = displayScalar w ++ rest') :
    v = w ∧ rest = rest' := by
  -- What has quotes begins otherwise than a word does.
  have apart {v w : Value} {c : Char} {rest rest' : List Char} (word : Word v)
      (begins : ∃ more, displayScalar w = c :: more) (other : beginsWord c = false) :
      displayScalar v ++ rest ≠ displayScalar w ++ rest' := by
    intro same
    obtain ⟨d, more, first, isBegin⟩ := word.begins
    obtain ⟨more', first'⟩ := begins
    rw [first, first'] at same
    rw [(List.cons.inj same).1, other] at isBegin
    cases isBegin
  rcases word_or_quoted scalar timeless with word | ⟨text, rfl⟩ | ⟨bytes, rfl⟩ <;>
    rcases word_or_quoted scalar' timeless' with word' | ⟨text', rfl⟩ | ⟨bytes', rfl⟩
  · have stops {rest : List Char} (follows : Follows rest) :
        ∀ c ∈ rest.head?, (!isStop c) = false := fun c isHead => by rw [follows c isHead]; rfl
    obtain ⟨texts, rests⟩ := Text.append_inj_of_stops word.not_stop word'.not_stop
      (stops follows) (stops follows') same
    exact ⟨word.inj word' texts, rests⟩
  · exact absurd same (apart word (first_of_string text') rfl)
  · exact absurd same (apart word (first_of_bytes bytes') rfl)
  · exact absurd same.symm (apart word' (first_of_string text) rfl)
  · obtain ⟨rfl, rests⟩ := Text.quote_append_inj same
    exact ⟨rfl, rests⟩
  · obtain ⟨more, first⟩ := first_of_string text
    obtain ⟨more', first'⟩ := first_of_bytes bytes'
    rw [first, first'] at same
    cases (List.cons.inj same).1
  · exact absurd same.symm (apart word' (first_of_bytes bytes) rfl)
  · obtain ⟨more, first⟩ := first_of_bytes bytes
    obtain ⟨more', first'⟩ := first_of_string text'
    rw [first, first'] at same
    cases (List.cons.inj same).1
  · obtain ⟨rfl, rests⟩ := Text.byteLiteral_append_inj same
    exact ⟨rfl, rests⟩

end Interchange.Store
