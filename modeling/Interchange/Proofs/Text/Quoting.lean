import Mathlib.Data.List.TakeWhile
import Interchange.Text.ByteLiteral
import Interchange.Text.Quoted

/-!
# Texts that tell where they end

The written form of a character or of a byte is read back whatever follows it, and none begins with
the quote that closes a text. So a text in quotes and a byte literal are told apart from every other
one, with anything behind them (`quote_append_inj`, `byteLiteral_append_inj`).
-/

namespace Interchange.Text

variable {α : Type} {rest rest' : List Char}

/-! ## Parts of a text -/

/-- What passes a test is told apart from what follows, if that begins with something that does not.
-/
theorem append_inj_of_stops {p : Char → Bool} {before before' : List Char}
    (all : ∀ c ∈ before, p c = true) (all' : ∀ c ∈ before', p c = true)
    (stops : ∀ c ∈ rest.head?, p c = false) (stops' : ∀ c ∈ rest'.head?, p c = false)
    (same : before ++ rest = before' ++ rest') : before = before' ∧ rest = rest' := by
  have taken {before rest : List Char} (all : ∀ c ∈ before, p c = true)
      (stops : ∀ c ∈ rest.head?, p c = false) : (before ++ rest).takeWhile p = before := by
    rw [List.takeWhile_append_of_pos all]
    cases rest with
    | nil => simp
    | cons c rest => rw [List.takeWhile_cons_of_neg (by simp [stops c rfl]), List.append_nil]
  have first : before = before' := by rw [← taken all stops, same, taken all' stops']
  subst first
  exact ⟨rfl, List.append_cancel_left same⟩

/-- A way to write single things that can be read back, and that never begins with the character
that closes a text of them. -/
structure Readable (write : α → List Char) (read : List Char → Option (α × List Char))
    (close : Char) : Prop where
  read_write : ∀ a rest, read (write a ++ rest) = some (a, rest)
  opens : ∀ a, ∃ c more, write a = c :: more ∧ c ≠ close

/-- Up to the character that closes them, texts of such things are told apart. -/
theorem Readable.flatMap_inj {write : α → List Char} {read : List Char → Option (α × List Char)}
    {close : Char} (readable : Readable write read close) {as bs : List α}
    (same : as.flatMap write ++ close :: rest = bs.flatMap write ++ close :: rest') :
    as = bs ∧ rest = rest' := by
  have unclosed (a : α) (as : List α) (rest more : List Char) :
      (a :: as).flatMap write ++ more ≠ close :: rest := by
    obtain ⟨c, tail, first, other⟩ := readable.opens a
    rw [List.flatMap_cons, first]
    exact fun same => other (List.cons.inj same).1
  induction as generalizing bs with
  | nil =>
    cases bs with
    | nil => exact ⟨rfl, (List.cons.inj same).2⟩
    | cons b bs => exact absurd same.symm (unclosed b bs _ _)
  | cons a as ih =>
    cases bs with
    | nil => exact absurd same (unclosed a as _ _)
    | cons b bs =>
      rw [List.flatMap_cons, List.append_assoc, List.flatMap_cons, List.append_assoc] at same
      have both := (readable.read_write a _).symm.trans
        ((congrArg read same).trans (readable.read_write b _))
      obtain ⟨rfl, further⟩ := Prod.mk.inj (Option.some.inj both)
      obtain ⟨rfl, rfl⟩ := ih further
      exact ⟨rfl, rfl⟩

/-! ## Characters in quotes -/

/-- The character that a mark after a backslash stands for. -/
def markedChar (mark : Char) : Char :=
  if mark = '0' then '\x00'
  else if mark = 't' then '\t'
  else if mark = 'r' then '\r'
  else if mark = 'n' then '\n'
  else mark

/-- The character at the front of a text in quotes, and what is behind it. -/
def readQuoted : List Char → Option (Char × List Char)
  | '\\' :: 'u' :: '\x7b' :: rest =>
    some (Char.ofNat (hexNumber (rest.takeWhile (· ≠ '\x7d'))),
      (rest.dropWhile (· ≠ '\x7d')).drop 1)
  | '\\' :: mark :: rest => some (markedChar mark, rest)
  | c :: rest => some (c, rest)
  | [] => none

theorem hexNumber_append (digits : List Char) (c : Char) :
    hexNumber (digits ++ [c]) = 16 * hexNumber digits + hexDigitValue c := by
  rw [hexNumber, List.foldl_append]
  rfl

/-- The digits of a number have its value, and none is a brace. -/
theorem hexNumber_toDigits (n : Nat) :
    hexNumber (Nat.toDigits 16 n) = n ∧ '\x7d' ∉ Nat.toDigits 16 n := by
  have digit (k : Nat) : hexDigitValue (k % 16).digitChar = k % 16 := hexDigitValue_hexDigit k
  have brace (k : Nat) : (k % 16).digitChar ≠ '\x7d' := by
    have table : ∀ m : Fin 16, m.val.digitChar ≠ '\x7d' := by decide
    exact table ⟨k % 16, Nat.mod_lt k (by decide)⟩
  induction n using Nat.strong_induction_on with
  | _ n ih =>
    by_cases small : n < 16
    · rw [Nat.toDigits_of_lt_base small, ← Nat.mod_eq_of_lt small]
      refine ⟨?_, fun isDigit => brace n (List.mem_singleton.1 isDigit).symm⟩
      rw [← List.nil_append [_], hexNumber_append, digit]
      exact Nat.zero_add _
    · obtain ⟨value, plain⟩ := ih (n / 16) (by omega)
      rw [Nat.toDigits_of_base_le (by decide) (Nat.le_of_not_lt small), hexNumber_append, value,
        digit, List.mem_append, List.mem_singleton]
      exact ⟨Nat.div_add_mod n 16, fun either => either.elim plain fun same => brace n same.symm⟩

/-- The digits between braces are read back. -/
theorem readQuoted_codePoint (c : Char) (rest : List Char) :
    readQuoted ('\\' :: 'u' :: '\x7b' :: (Nat.toDigits 16 c.toNat ++ '\x7d' :: rest)) =
      some (c, rest) := by
  obtain ⟨value, plain⟩ := hexNumber_toDigits c.toNat
  have all : ∀ d ∈ Nat.toDigits 16 c.toNat, decide (d ≠ '\x7d') = true := fun d isDigit =>
    decide_eq_true fun same => plain (same ▸ isDigit)
  have taken : ('\x7d' :: rest).takeWhile (· ≠ '\x7d') = [] :=
    List.takeWhile_cons_of_neg (by decide)
  have left : ('\x7d' :: rest).dropWhile (· ≠ '\x7d') = '\x7d' :: rest :=
    List.dropWhile_cons_of_neg (by decide)
  rw [readQuoted, List.takeWhile_append_of_pos all, List.dropWhile_append_of_pos all, taken, left,
    List.append_nil, value, Char.ofNat_toNat]
  rfl

theorem readQuoted_plain {c : Char} (plain : c ≠ '\\') (rest : List Char) :
    readQuoted (c :: rest) = some (c, rest) := by
  unfold readQuoted
  split
  · next same => exact absurd (List.cons.inj same).1 plain
  · next same => exact absurd (List.cons.inj same).1 plain
  · next same => cases same; rfl
  · next same => cases same

theorem readable_quoteChar : Readable quoteChar readQuoted '"' where
  read_write c rest := by
    unfold quoteChar
    split_ifs with zero tab returned line slash quote point
    · rw [zero]; rfl
    · rw [tab]; rfl
    · rw [returned]; rfl
    · rw [line]; rfl
    · rw [slash]; rfl
    · rw [quote]; rfl
    · have parts : ['\\', 'u', '\x7b'] ++ Nat.toDigits 16 c.toNat ++ ['\x7d'] ++ rest =
          '\\' :: 'u' :: '\x7b' :: (Nat.toDigits 16 c.toNat ++ '\x7d' :: rest) := by simp
      rw [parts, readQuoted_codePoint]
    · exact readQuoted_plain slash rest
  opens c := by
    unfold quoteChar
    split_ifs with zero tab returned line slash quote point
    case neg => exact ⟨c, [], rfl, quote⟩
    all_goals exact ⟨'\\', _, rfl, by decide⟩

/-- A text in quotes tells which text it is and where it ends. -/
theorem quote_append_inj {s t : String}
    (same : (quote s).toList ++ rest = (quote t).toList ++ rest') : s = t ∧ rest = rest' := by
  have parts (s : String) (rest : List Char) : (quote s).toList ++ rest =
      '"' :: (s.toList.flatMap quoteChar ++ '"' :: rest) := by
    simp [quote]
  rw [parts, parts] at same
  obtain ⟨chars, rfl⟩ := readable_quoteChar.flatMap_inj (List.cons.inj same).2
  exact ⟨String.toList_inj.1 chars, rfl⟩

/-! ## Bytes in quotes -/

/-- The byte at the front of a literal, and what is behind it. -/
def readByte : List Char → Option (UInt8 × List Char)
  | '\\' :: 'x' :: high :: low :: rest =>
    some (UInt8.ofNat (16 * hexDigitValue high + hexDigitValue low), rest)
  | '\\' :: mark :: rest => some (UInt8.ofNat (markedChar mark).toNat, rest)
  | c :: rest => some (UInt8.ofNat c.toNat, rest)
  | [] => none

theorem readByte_plain {c : Char} (plain : c ≠ '\\') (rest : List Char) :
    readByte (c :: rest) = some (UInt8.ofNat c.toNat, rest) := by
  unfold readByte
  split
  · next same => exact absurd (List.cons.inj same).1 plain
  · next same => exact absurd (List.cons.inj same).1 plain
  · next same => cases same; rfl
  · next same => cases same

theorem readByte_hex (b : UInt8) (rest : List Char) :
    readByte ('\\' :: 'x' :: (hexByte b ++ rest)) = some (b, rest) := by
  have bytes := (List.cons.inj (hexBytes_hexByte_append b [])).1
  exact congrArg (fun b => some (b, rest)) bytes

theorem readable_literalByte : Readable literalByte readByte '"' where
  read_write b rest := by
    have point : (Char.ofNat b.toNat).toNat = b.toNat := by
      have bound := b.toNat_lt
      have valid : b.toNat.isValidChar := .inl (by omega)
      rw [Char.ofNat, dif_pos valid]
      rfl
    have byte (c : Char) (same : Char.ofNat b.toNat = c) : UInt8.ofNat c.toNat = b := by
      rw [← same, point, UInt8.ofNat_toNat]
    unfold literalByte
    dsimp only
    split_ifs with tab returned line single quote slash printable
    · rw [← byte _ tab]; rfl
    · rw [← byte _ returned]; rfl
    · rw [← byte _ line]; rfl
    · rw [← byte _ single]; rfl
    · rw [← byte _ quote]; rfl
    · rw [← byte _ slash]; rfl
    · exact (readByte_plain slash rest).trans (by rw [byte _ rfl])
    · exact readByte_hex b rest
  opens b := by
    unfold literalByte
    dsimp only
    split_ifs with tab returned line single quote slash printable
    · exact ⟨'\\', _, rfl, by decide⟩
    · exact ⟨'\\', _, rfl, by decide⟩
    · exact ⟨'\\', _, rfl, by decide⟩
    · exact ⟨'\\', _, rfl, by decide⟩
    · exact ⟨'\\', _, rfl, by decide⟩
    · exact ⟨'\\', _, rfl, by decide⟩
    · exact ⟨_, [], rfl, quote⟩
    · exact ⟨'\\', _, rfl, by decide⟩

/-- A byte literal tells which bytes it is of and where it ends. -/
theorem byteLiteral_append_inj {a b : List UInt8}
    (same : (byteLiteral a).toList ++ rest = (byteLiteral b).toList ++ rest') :
    a = b ∧ rest = rest' := by
  have parts (bytes : List UInt8) (rest : List Char) : (byteLiteral bytes).toList ++ rest =
      'b' :: '"' :: (bytes.flatMap literalByte ++ '"' :: rest) := by
    simp [byteLiteral]
  rw [parts, parts] at same
  exact readable_literalByte.flatMap_inj (List.cons.inj (List.cons.inj same).2).2

end Interchange.Text
