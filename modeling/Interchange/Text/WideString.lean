/-!
# Strings of wide units

A string in units of sixteen bits. A character is one unit, or two surrogates in a row, a high one
and a low one. Any list of units is such a string, and a string with a surrogate that is part of no
such pair stands for no text: `broken` has the units themselves then. Units and strings are the same
(`units_ofUnits`, `ofUnits_units`).
-/

namespace Interchange

/-! ## Characters in units -/

/-- The units of a character. -/
def wideUnits (c : Char) : List UInt16 :=
  if c.toNat < 0x10000 then [.ofNat c.toNat]
  else
    [.ofNat (0xD800 + (c.toNat - 0x10000) / 0x400), .ofNat (0xDC00 + (c.toNat - 0x10000) % 0x400)]

/-- The character that a unit is by itself; a surrogate is none. -/
def charOfUnit? (unit : UInt16) : Option Char :=
  if unit.toNat < 0xD800 || 0xDFFF < unit.toNat then some (Char.ofNat unit.toNat) else none

/-- The character of a high surrogate and a low one. -/
def charOfPair? (high low : UInt16) : Option Char :=
  if 0xD800 ≤ high.toNat && high.toNat < 0xDC00 && 0xDC00 ≤ low.toNat && low.toNat < 0xE000 then
    some (Char.ofNat (0x10000 + (high.toNat - 0xD800) * 0x400 + (low.toNat - 0xDC00)))
  else none

/-- The characters of units up to the first surrogate that is part of no pair, and the units from
there on. -/
def decodeWide : List UInt16 → List Char × List UInt16
  | [] => ([], [])
  | unit :: rest =>
    match charOfUnit? unit with
    | some c => (c :: (decodeWide rest).1, (decodeWide rest).2)
    | none =>
      match rest with
      | [] => ([], [unit])
      | low :: rest =>
        match charOfPair? unit low with
        | some c => (c :: (decodeWide rest).1, (decodeWide rest).2)
        | none => ([], unit :: low :: rest)

/-- The text before its first NUL. -/
def Text.beforeNul (text : String) : String :=
  String.ofList (text.toList.takeWhile fun c => c != '\x00')

/-! ## Strings -/

inductive WideString where
  | text (text : String)
  /-- Units with a surrogate that is part of no pair. -/
  | broken (units : { units : List UInt16 // (decodeWide units).2 ≠ [] })
deriving DecidableEq, Repr

namespace WideString

instance : Coe String WideString := ⟨text⟩

instance : Inhabited WideString := ⟨text ""⟩

def units : WideString → List UInt16
  | text s => s.toList.flatMap wideUnits
  | broken units => units.1

/-- The string of some units. -/
def ofUnits (units : List UInt16) : WideString :=
  if whole : (decodeWide units).2 = [] then text (String.ofList (decodeWide units).1)
  else broken ⟨units, whole⟩

/-- One string behind the other. Two halves of a pair make a character where they meet. -/
def append : WideString → WideString → WideString
  | text s, text t => text (s ++ t)
  | s, t => ofUnits (s.units ++ t.units)

instance : Append WideString := ⟨append⟩

/-- Strings with one between each and the next. -/
def intercalate (between : WideString) : List WideString → WideString
  | [] => text ""
  | [s] => s
  | s :: t :: rest => s ++ between ++ intercalate between (t :: rest)

/-- The string before its first NUL. -/
def beforeNul : WideString → WideString
  | text s => text (Text.beforeNul s)
  | broken units => ofUnits (units.1.takeWhile fun unit => unit != 0)

/-- How many bytes a reader of bytes passes before the first surrogate that is part of no pair. -/
def soundBytes (units : List UInt16) : Nat :=
  (decodeWide units).1.foldl (fun bytes c => bytes + c.utf8Size) 0

end WideString

/-! ## Units and strings -/

theorem toNat_charOfNat {n : Nat} (valid : n.isValidChar) : (Char.ofNat n).toNat = n := by
  rw [Char.ofNat, dif_pos valid]
  rfl

theorem wideUnits_of_charOfUnit? {unit : UInt16} {c : Char} (found : charOfUnit? unit = some c) :
    wideUnits c = [unit] := by
  have below := unit.toNat_lt
  rw [charOfUnit?, Option.ite_none_right_eq_some, Option.some.injEq] at found
  obtain ⟨single, rfl⟩ := found
  rw [Bool.or_eq_true, decide_eq_true_eq, decide_eq_true_eq] at single
  have same : (Char.ofNat unit.toNat).toNat = unit.toNat :=
    toNat_charOfNat (by rw [Nat.isValidChar]; omega)
  rw [wideUnits, same, if_pos (by omega), UInt16.ofNat_toNat]

theorem wideUnits_of_charOfPair? {high low : UInt16} {c : Char}
    (found : charOfPair? high low = some c) : wideUnits c = [high, low] := by
  rw [charOfPair?, Option.ite_none_right_eq_some, Option.some.injEq] at found
  obtain ⟨pair, rfl⟩ := found
  simp only [Bool.and_eq_true, decide_eq_true_eq] at pair
  have same := toNat_charOfNat
    (n := 0x10000 + (high.toNat - 0xD800) * 0x400 + (low.toNat - 0xDC00))
    (by rw [Nat.isValidChar]; omega)
  have first : 0xD800 + (0x10000 + (high.toNat - 0xD800) * 0x400 + (low.toNat - 0xDC00) - 0x10000) /
    0x400 = high.toNat := by omega
  have second : 0xDC00 +
    (0x10000 + (high.toNat - 0xD800) * 0x400 + (low.toNat - 0xDC00) - 0x10000) % 0x400 =
      low.toNat := by omega
  rw [wideUnits, same, if_neg (by omega), first, second, UInt16.ofNat_toNat, UInt16.ofNat_toNat]

/-- The characters, and then what is left, are the units. -/
theorem flatMap_wideUnits_decodeWide (units : List UInt16) :
    (decodeWide units).1.flatMap wideUnits ++ (decodeWide units).2 = units := by
  fun_induction decodeWide units with
  | case1 => rfl
  | case2 unit rest c found ih =>
    rw [List.flatMap_cons, wideUnits_of_charOfUnit? found, List.append_assoc, ih,
      List.singleton_append]
  | case3 | case5 => rfl
  | case4 unit _ low rest c found ih =>
    rw [List.flatMap_cons, wideUnits_of_charOfPair? found, List.append_assoc, ih]
    rfl

theorem decodeWide_unit {unit : UInt16} {c : Char} (found : charOfUnit? unit = some c)
    (rest : List UInt16) :
    decodeWide (unit :: rest) = (c :: (decodeWide rest).1, (decodeWide rest).2) := by
  rw [decodeWide.eq_def]
  simp only [found]

theorem decodeWide_pair {high low : UInt16} {c : Char} (alone : charOfUnit? high = none)
    (found : charOfPair? high low = some c) (rest : List UInt16) :
    decodeWide (high :: low :: rest) = (c :: (decodeWide rest).1, (decodeWide rest).2) := by
  rw [decodeWide.eq_def]
  simp only [alone, found]

theorem toNat_unit {n : Nat} (small : n < 0x10000) : (UInt16.ofNat n).toNat = n :=
  UInt16.toNat_ofNat_of_lt' small

/-- A character is read back from its units, whatever is behind them. -/
theorem decodeWide_append (c : Char) (rest : List UInt16) :
    decodeWide (wideUnits c ++ rest) = (c :: (decodeWide rest).1, (decodeWide rest).2) := by
  have valid : c.toNat < 0xD800 ∨ 0xDFFF < c.toNat ∧ c.toNat < 0x110000 := c.valid
  rw [wideUnits]
  split
  · next low =>
    refine decodeWide_unit ?_ rest
    rw [charOfUnit?, toNat_unit low, Char.ofNat_toNat, if_pos]
    rw [Bool.or_eq_true, decide_eq_true_eq, decide_eq_true_eq]
    omega
  · next high =>
    have first := toNat_unit (n := 0xD800 + (c.toNat - 0x10000) / 0x400) (by omega)
    have second := toNat_unit (n := 0xDC00 + (c.toNat - 0x10000) % 0x400) (by omega)
    refine decodeWide_pair ?_ ?_ rest
    · rw [charOfUnit?, first, if_neg]
      rw [Bool.or_eq_true, decide_eq_true_eq, decide_eq_true_eq]
      omega
    · have same : 0x10000 + (0xD800 + (c.toNat - 0x10000) / 0x400 - 0xD800) * 0x400 +
          (0xDC00 + (c.toNat - 0x10000) % 0x400 - 0xDC00) = c.toNat := by omega
      rw [charOfPair?, first, second, same, Char.ofNat_toNat, if_pos]
      simp only [Bool.and_eq_true, decide_eq_true_eq]
      omega

theorem decodeWide_flatMap (cs : List Char) : decodeWide (cs.flatMap wideUnits) = (cs, []) := by
  induction cs with
  | nil => rfl
  | cons c cs ih => rw [List.flatMap_cons, decodeWide_append, ih]

namespace WideString

/-- Every list of units is a string. -/
theorem units_ofUnits (units : List UInt16) : (ofUnits units).units = units := by
  rw [ofUnits]
  split
  · next whole =>
    have same := flatMap_wideUnits_decodeWide units
    rw [whole, List.append_nil] at same
    rw [WideString.units, String.toList_ofList, same]
  · rfl

/-- Units make one string only. -/
theorem ofUnits_units (s : WideString) : ofUnits s.units = s := by
  cases s with
  | text s => simp [units, ofUnits, decodeWide_flatMap]
  | broken units => rw [WideString.units, ofUnits, dif_neg units.2]

theorem units_append (s t : WideString) : (s ++ t).units = s.units ++ t.units := by
  cases s with
  | text s =>
    cases t with
    | text t =>
      change (s ++ t).toList.flatMap wideUnits = _
      rw [String.toList_append, List.flatMap_append]
      rfl
    | broken => exact units_ofUnits _
  | broken => exact units_ofUnits _

end WideString
end Interchange
