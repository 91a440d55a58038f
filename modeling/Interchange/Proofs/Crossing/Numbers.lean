import Interchange.Proofs.Crossing.Places
import Interchange.Proofs.Coercion
import Interchange.Proofs.Decimal.Rounding

/-!
# Numbers that are read

A numeral without fraction and exponent is read as the integer that it spells, however large. Any other
numeral is read as the nearest float, unless it is half a gap or more past the greatest finite one: then
no number is left of it, and what is read is NaN (`Mirrors.decodes`). So it is at every place of a text
(`numbers_outcome`), and NaN is read exactly where a numeral is out of range.
-/

namespace Interchange

open Binary64 (signed overflow)

namespace Json

/-! ## What numerals stand for -/

namespace Numeral

variable {n : Numeral}

/-- The power of ten of the exponent. -/
def power (n : Numeral) : Int :=
  match n.exponent with
  | none => 0
  | some (true, digits) => -naturalOf digits
  | some (false, digits) => naturalOf digits

/-- The rational that a numeral stands for. -/
def value (n : Numeral) : ℚ :=
  let fraction := n.fraction.getD []
  signed n.negative
    ((naturalOf n.whole + naturalOf fraction / 10 ^ fraction.length) * 10 ^ n.power)

/-- The numeral has no fraction and no exponent. -/
def IsInteger (n : Numeral) : Prop := n.fraction = none ∧ n.exponent = none

/-- A numeral with a fraction or an exponent that no finite float is near enough to. -/
def Overflows (n : Numeral) : Prop := ¬ n.IsInteger ∧ overflow ≤ |n.value|

theorem exponent_decimal (n : Numeral) :
    n.decimal.exponent = n.power - (n.fraction.getD []).length := by
  obtain ⟨_, _, _, _ | ⟨_ | _, _⟩⟩ := n <;> rfl

theorem value_decimal (n : Numeral) : n.decimal.value = n.value := by
  have ten : (10 : ℚ) ≠ 0 := by norm_num
  have tens : (10 : ℚ) ^ (n.fraction.getD []).length ≠ 0 := pow_ne_zero _ ten
  have digits : n.decimal.digits = naturalOf (n.whole ++ n.fraction.getD []) := rfl
  rw [Decimal.value, exponent_decimal, digits, naturalOf_append, zpow_sub₀ ten, zpow_natCast, value]
  congr 1
  push_cast
  field_simp

theorem number_of_isInteger (isInteger : n.IsInteger) :
    ∃ i : Int, n.number = .integer i ∧ (i : ℚ) = n.value := by
  obtain ⟨negative, whole, fraction, exponent⟩ := n
  obtain ⟨rfl, rfl⟩ : fraction = none ∧ exponent = none := isInteger
  refine ⟨_, rfl, ?_⟩
  cases negative <;> simp [value, power, signed, naturalOf]

theorem number_of_not_isInteger (other : ¬ n.IsInteger) : n.number = .decimal n.decimal := by
  obtain ⟨negative, whole, fraction, exponent⟩ := n
  cases fraction with
  | some => rfl
  | none =>
    cases exponent with
    | some => rfl
    | none => exact absurd ⟨rfl, rfl⟩ other

theorem number_cases (n : Numeral) :
    (∃ i, n.number = .integer i) ∨ n.number = .decimal n.decimal :=
  (em n.IsInteger).imp (fun isInteger => (number_of_isInteger isInteger).imp fun _ => And.left)
    number_of_not_isInteger

/-! ## What they are read as -/

/-- What a numeral becomes as a host value and as a value. -/
inductive Decodes (n : Numeral) : HostValue → Value → Prop
  /-- An integer of 64 bits. -/
  | narrow {i : Int} (isInteger : n.IsInteger) (exact : (i : ℚ) = n.value)
      (fits : -2 ^ 63 ≤ i ∧ i < 2 ^ 63) : Decodes n (.int i) (.int i)
  | wide {i : Int} (isInteger : n.IsInteger) (exact : (i : ℚ) = n.value)
      (wide : ¬ (-2 ^ 63 ≤ i ∧ i < 2 ^ 63)) : Decodes n (.wide i) (.int i)
  | float {rank : Fin infiniteRank} (other : ¬ n.IsInteger)
      (nearest : (Binary64.finite n.negative rank).Nearest n.value) :
      Decodes n (.float (.finite n.negative rank)) (.float (.finite n.negative rank))
  | overflow (overflows : n.Overflows) : Decodes n (.float .nan) (.float .nan)

/-- A numeral that is out of range is read as NaN. -/
theorem Decodes.nan {h : HostValue} {w : Value} (decodes : n.Decodes h w)
    (overflows : n.Overflows) : w = .float .nan := by
  cases decodes with
  | narrow isInteger | wide isInteger => exact absurd isInteger overflows.1
  | float _ nearest => exact absurd overflows.2 (not_le.2 nearest.1)
  | overflow => rfl

end Numeral

/-- What is meant is meant as it is. -/
theorem Number.meant_meant (n : Number) : n.meant.meant = n.meant := by
  cases n with
  | integer | decimal => rfl
  | written n =>
    rw [meant]
    rcases n.number_cases with ⟨i, integer⟩ | decimal
    · rw [integer]
      rfl
    · rw [decimal]
      rfl

end Json

open Json

namespace Store

variable {s t : Store} {v : Value} {n : Numeral}

/-- What mirrors a numeral is what the numeral decodes to. -/
theorem Mirrors.decodes (mirrors : s.Mirrors (.ofJson (.number (.written n))) v) :
    n.Decodes (.ofJson (.number (.written n))) v := by
  by_cases isInteger : n.IsInteger
  · obtain ⟨i, number, exact'⟩ := Numeral.number_of_isInteger isInteger
    have host : HostValue.ofJson (.number (.written n)) = .ofInt i := by
      rw [HostValue.ofJson, Number.meant, number]
    rw [host] at mirrors ⊢
    rw [mirrors.scalar? (HostValue.scalar?_ofInt i), HostValue.ofInt]
    split
    · next fits => exact .narrow isInteger exact' (Binary64.fitsInt64_iff.1 fits)
    · next wide => exact .wide isInteger exact' fun fits => wide (Binary64.fitsInt64_iff.2 fits)
  · have host : HostValue.ofJson (.number (.written n)) =
        .float (if n.decimal.toBinary64.isFinite then n.decimal.toBinary64 else .nan) := by
      rw [HostValue.ofJson, Number.meant, Numeral.number_of_not_isInteger isInteger]
      rfl
    rw [host] at mirrors ⊢
    rw [mirrors.scalar? rfl]
    have nearest := n.decimal.toBinary64_nearest
    rw [Numeral.value_decimal] at nearest
    rcases n.decimal.toBinary64_cases with ⟨rank, finite, -⟩ | ⟨infinite, past⟩
    · rw [finite] at nearest ⊢
      exact .float isInteger nearest
    · rw [Numeral.value_decimal] at past
      rw [infinite]
      exact .overflow ⟨isInteger, past⟩

/-! ## The numbers of a text -/

end Store

namespace HostValue

mutual

/-- What is meant has the host form of what is written. -/
theorem ofJson_meant : (tree : Json) → ofJson tree.meant = ofJson tree
  | .number n => by rw [meant, ofJson, ofJson, Number.meant_meant]
  | .array items => by rw [meant, ofJson, ofJson, ofJsonItems_meant items]
  | .object members => by rw [meant, ofJson, ofJson, ofJsonMembers_meant members]
  | .null | .bool _ | .string _ => rfl

theorem ofJsonItems_meant :
    (items : List Json) → ofJsonItems (meantItems items) = ofJsonItems items
  | [] => rfl
  | item :: rest => by
    rw [meantItems, ofJsonItems, ofJsonItems, ofJson_meant item, ofJsonItems_meant rest]

theorem ofJsonMembers_meant :
    (members : List (String × Json)) → ofJsonMembers (meantMembers members) = ofJsonMembers members
  | [] => rfl
  | (name, item) :: rest => by
    rw [meantMembers, ofJsonMembers, ofJsonMembers, ofJson_meant item, ofJsonMembers_meant rest]

end

end HostValue

namespace Store

variable {s t : Store} {v : Value} {n : Numeral} {text : String}

/-- A text that is read comes to something that its tree mirrors. -/
theorem fromJsonText_ok (accepted : (Op.fromJsonText text).runOn s = (.ok v, t)) :
    ∃ tree, Json.parse text = .ok tree ∧ t.Mirrors (.ofJson tree) v := by
  cases parsed : Json.parse text with
  | error fault =>
    rw [Op.fromJsonText, parsed] at accepted
    cases accepted
  | ok tree =>
    obtain ⟨w, u, arrived, built⟩ := HostValue.restored_ofJson tree s
    rw [Op.runOn_fromJsonText parsed, arrived] at accepted
    cases accepted
    exact ⟨tree, rfl, built.added t fun _ _ _ => rfl⟩

/-- Only what is out of range is read as NaN. -/
theorem Mirrors.number_of_nan {tree : Json} (mirrors : s.Mirrors (.ofJson tree) (.float .nan))
    (isSource : tree.IsSource) : ∃ n, tree = .number (.written n) ∧ n.Overflows := by
  cases tree with
  | number n =>
    obtain ⟨n, rfl⟩ := isSource.written
    have decodes := mirrors.decodes
    generalize HostValue.ofJson (.number (.written n)) = h at decodes
    cases decodes with
    | overflow overflows => exact ⟨n, rfl, overflows⟩
  | null | bool | string | array | object => cases mirrors

section Places

variable {source : Json} {way : List Inward}

/-- At the place of a number is what its numeral decodes to. -/
theorem Mirrors.decodes_at (mirrors : s.Mirrors (.ofJson source) v) (isSource : source.IsSource)
    {k : Number} (found : follow Json.child? way source = some (.number k)) :
    ∃ n w, k = .written n ∧ follow s.child? way v = some w ∧ n.Decodes (.ofJson (.number k)) w := by
  have related := mirrors.follows isSource way
  rw [found] at related
  generalize follow s.child? way v = value at related ⊢
  cases related with
  | some both =>
    obtain ⟨n, rfl⟩ := both.1.written
    exact ⟨n, _, rfl, rfl, both.2.decodes⟩

/-- At the place of NaN is a numeral that is out of range. -/
theorem Mirrors.overflows_at (mirrors : s.Mirrors (.ofJson source) v) (isSource : source.IsSource)
    (found : follow s.child? way v = some (.float .nan)) :
    ∃ n, follow Json.child? way source = some (.number (.written n)) ∧ n.Overflows := by
  have related := mirrors.follows isSource way
  rw [found] at related
  generalize follow Json.child? way source = part at related ⊢
  cases related with
  | some both =>
    obtain ⟨n, rfl, overflows⟩ := both.2.number_of_nan both.1
    exact ⟨n, rfl, overflows⟩

end Places

/-- Every number of a text that is read is read as the numeral stands in it: without fraction and
exponent as that integer, of 64 bits exactly when it fits, and else as the nearest float. Nothing but a
numeral with a fraction or an exponent that lies past the finite floats is read as NaN, and each such
numeral is. -/
theorem numbers_outcome (accepted : (Op.fromJsonText text).runOn s = (.ok v, t)) :
    ∃ tree source, Json.parse text = .ok tree ∧ source.StandsIn text ∧ tree = source.meant ∧
      (∀ way k, follow Json.child? way source = some (.number k) → ∃ n h w, k = .written n ∧
        follow HostValue.child? way (.ofJson tree) = some h ∧ follow t.child? way v = some w ∧
        n.Decodes h w) ∧
      ∀ way, follow t.child? way v = some (.float .nan) ↔
        ∃ n, follow Json.child? way source = some (.number (.written n)) ∧ n.Overflows := by
  obtain ⟨_, parsed, mirrors⟩ := fromJsonText_ok accepted
  obtain ⟨source, stands, rfl⟩ := Json.source_of_parse parsed
  have isSource := stands.isSource
  rw [HostValue.ofJson_meant] at mirrors
  refine ⟨_, source, parsed, stands, rfl, fun way k found => ?_,
    fun way => ⟨mirrors.overflows_at isSource, ?_⟩⟩
  · obtain ⟨n, w, isWritten, there, decodes⟩ := mirrors.decodes_at isSource found
    refine ⟨n, _, w, isWritten, ?_, there, decodes⟩
    rw [HostValue.ofJson_meant, isSource.follow_ofJson, found]
    rfl
  · rintro ⟨n, found, overflows⟩
    obtain ⟨_, w, same, there, decodes⟩ := mirrors.decodes_at isSource found
    cases same
    rw [there, decodes.nan overflows]

/-- Numbers of all kinds, the last past the greatest finite float. -/
def measured : String := "[1,-9223372036854775809,15e-1,\x7b\"a\":1e400\x7d]"

theorem exists_of_runOn {α : Type} {a : α} {result : Except Fault α × Store} {P : Store → Prop}
    (ok : result.1 = .ok a) (after : P result.2) : ∃ t, result = (.ok a, t) ∧ P t := by
  obtain ⟨_, t⟩ := result
  obtain rfl := ok
  exact ⟨t, rfl, after⟩

/-- Of the numbers, the last is read as NaN. -/
theorem numbers_outcome_measured :
    ∃ t, (Op.fromJsonText measured).runOn empty = (.ok (.object ⟨1⟩), t) ∧
      follow t.child? [.item 1] (.object ⟨1⟩) = some (.int (-9223372036854775809)) ∧
      follow t.child? [.item 3, .member "a"] (.object ⟨1⟩) = some (.float .nan) ∧
      ∃ source n, source.StandsIn measured ∧ n.Overflows ∧
        follow Json.child? [.item 3, .member "a"] source = some (.number (.written n)) := by
  have read : ∃ t, (Op.fromJsonText measured).runOn empty = (.ok (.object ⟨1⟩), t) ∧
      follow t.child? [.item 1] (.object ⟨1⟩) = some (.int (-9223372036854775809)) ∧
      follow t.child? [.item 3, .member "a"] (.object ⟨1⟩) = some (.float .nan) :=
    exists_of_runOn (by decide +kernel) (by decide +kernel)
  obtain ⟨t, accepted, integer, nan⟩ := read
  obtain ⟨_, source, -, stands, -, -, places⟩ := numbers_outcome accepted
  obtain ⟨n, found, overflows⟩ := (places _).1 nan
  exact ⟨t, accepted, integer, nan, source, n, stands, overflows, found⟩

/-- The numeral of a one with four hundred zeros. -/
def oversized : Numeral := ⟨false, ['1'], none, some (false, ['4', '0', '0'])⟩

theorem spelled_oversized : oversized.Spelled "1e400".toList := by
  have digit (c : Char) (isDigit : c.isDigit = true) : ∀ d ∈ [c], d.isDigit = true :=
    List.forall_mem_singleton.2 isDigit
  have zeros : IsTail ['4', '0', '0'] :=
    ⟨List.forall_mem_cons.2 ⟨rfl, List.forall_mem_cons.2 ⟨rfl, digit '0' rfl⟩⟩, List.cons_ne_nil _ _⟩
  exact ⟨_, { whole := ⟨digit '1' rfl, .inr ⟨'1', [], rfl, by decide⟩⟩
              fraction := nofun
              exponent := by
                rintro _ ⟨⟩
                exact zeros
              chars := ⟨_, @ExponentText.plain 'e' _ (by decide), rfl⟩ }, by decide +kernel⟩

/-- A numeral with an exponent that infinity is nearest to is read as NaN, which is written as null. -/
theorem oversized_read_as_nan :
    (Json.number (.written oversized)).StandsIn "1e400" ∧ ¬ oversized.IsInteger ∧
    (Binary64.infinity false).Nearest oversized.value ∧ ¬ Binary64.nan.Nearest oversized.value ∧
    ∃ t, (Op.fromJsonText "1e400").runOn empty = (.ok (.float .nan), t) ∧
      t.toJsonText (.float .nan) = .ok "null" := by
  have infinite : oversized.decimal.toBinary64 = .infinity false := by decide +kernel
  have nearest := oversized.decimal.toBinary64_nearest
  rw [infinite, Numeral.value_decimal] at nearest
  have stands : (Json.number (.written oversized)).StandsIn "1e400" :=
    ⟨[], .leaf (.number spelled_oversized (by decide +kernel)), rfl⟩
  have other : ¬ oversized.IsInteger := fun isInteger => by cases isInteger.2
  exact ⟨stands, other, nearest, id, exists_of_runOn (by decide +kernel) (by decide +kernel)⟩

end Store
end Interchange
