import Interchange.Proofs.Crossing.Members
import Interchange.Proofs.Decimal.Layout
import Interchange.Proofs.Script.RoundTrip
import Interchange.Proofs.Store.ScalarText

/-!
# Two texts of a key

A dict that becomes a script value has its entries under the texts of its keys as a person reads them
(`Store.text?`), and one that becomes a JSON text has them under the texts of its keys as a host
(`Store.keyText?`). The two are the same for an integer and a text, and never for what a host spells
with another word; for a float they are the same when its text for a person is plain
(`Nameable.text?_eq_iff`). Two different texts of one key are never the two texts of another
(`Nameable.uniform_or_uniform`).
-/

namespace Interchange.Script

open HostValue Store

/-- A text that stands for nothing but a key, in a script and in JSON, and that the embedding side is
told whole. -/
structure Admitted (name : String) : Prop where
  plain : name ≠ prototypeName
  free : name ≠ Json.numberName
  whole : Whole name

/-- A key that goes by a text of its own in both. -/
inductive Nameable : Value → Prop
  | nothing : Nameable .nothing
  | bool (b : Bool) : Nameable (.bool b)
  | int (i : Int) : Nameable (.int i)
  | float {x : Binary64} (finite : x.isFinite = true) : Nameable (.float x)
  | string {name : String} (admitted : Admitted name) : Nameable (.string name)

/-- A script and a JSON text have the key under the same text. -/
def Uniform (s : Store) (key : Value) : Prop := s.text? key = s.keyText? key

variable {s : Store} {key other : Value}

/-! ## The texts -/

theorem display?_of_scalar (scalar : key.identity? = none) :
    s.display? key = some (String.ofList (displayScalar key)) := by
  cases key with
  | object => cases scalar
  | _ =>
    unfold display? displayWithin
    rfl

section Texts

variable (s)

theorem text?_int (i : Int) : s.text? (.int i) = some (toString i) := by
  refine (display?_of_scalar rfl).trans ?_
  rw [displayScalar, String.ofList_toList]

theorem text?_float (x : Binary64) : s.text? (.float x) = some (Store.floatLayout.write x) := by
  refine (display?_of_scalar rfl).trans ?_
  rw [displayScalar, String.ofList_toList]

theorem keyText?_int (i : Int) : s.keyText? (.int i) = some (toString i) := by
  rw [keyText?_of_depart (h := .ofInt i) rfl]
  unfold HostValue.ofInt
  split <;> rfl

theorem keyText?_float (x : Binary64) : s.keyText? (.float x) = some (nameLayout.write x) := rfl

end Texts

theorem bare_nameLayout : nameLayout.Bare := ⟨by decide, by decide, rfl⟩

theorem sameDigits_floatLayout : Store.floatLayout.SameDigits nameLayout := ⟨rfl, rfl⟩

/-- What a person reads for keys that are no numbers and no texts. -/
def personWords : List String := ["None", "True", "False"]

/-- What a host writes for them. -/
def hostWords : List String := ["null", "true", "false"]

/-- A key that a person reads as a host does. -/
def SpelledAlike : Value → Prop
  | .int _ => True
  | .string _ => True
  | .float x => Decimal.Plain (Store.floatLayout.write x).toList
  | _ => False

/-! ## Admitted texts -/

theorem admitted_of_numeric {name : String} (numeric : Decimal.Numeric name) : Admitted name where
  plain := by
    rintro rfl
    exact absurd numeric (by decide)
  free := by
    rintro rfl
    exact absurd numeric (by decide)
  whole := fun isChar => absurd (numeric _ isChar) (by decide)

namespace Nameable

/-- Both texts of a key are admitted. -/
theorem exists_texts (nameable : Nameable key) : ∃ name name', s.text? key = some name ∧
    s.keyText? key = some name' ∧ Admitted name ∧ Admitted name' := by
  cases nameable with
  | nothing => exact ⟨"None", "null", rfl, rfl, by constructor <;> decide, by constructor <;> decide⟩
  | bool b =>
    cases b with
    | true => exact ⟨"True", "true", rfl, rfl, by constructor <;> decide, by constructor <;> decide⟩
    | false =>
      exact ⟨"False", "false", rfl, rfl, by constructor <;> decide, by constructor <;> decide⟩
  | int i =>
    have admitted := admitted_of_numeric (numeric_int i)
    exact ⟨_, _, text?_int s i, keyText?_int s i, admitted, admitted⟩
  | @float x finite =>
    exact ⟨_, _, text?_float s x, keyText?_float s x,
      admitted_of_numeric (floatLayout.numeric_write finite),
      admitted_of_numeric (nameLayout.numeric_write finite)⟩
  | string admitted => exact ⟨_, _, rfl, rfl, admitted, admitted⟩

theorem exists_text (nameable : Nameable key) : ∃ name, s.text? key = some name ∧ Admitted name :=
  have ⟨name, _, found, _, admitted, _⟩ := nameable.exists_texts (s := s)
  ⟨name, found, admitted⟩

theorem exists_keyText (nameable : Nameable key) :
    ∃ name, s.keyText? key = some name ∧ Admitted name :=
  have ⟨_, name, _, found, _, admitted⟩ := nameable.exists_texts (s := s)
  ⟨name, found, admitted⟩

/-- A key goes by the same text in both exactly when it is an integer, a text, or a float that a
person reads without an exponent and without a mark for whole numbers. -/
theorem uniform_iff (nameable : Nameable key) : Uniform s key ↔ SpelledAlike key := by
  cases nameable with
  | nothing => exact iff_of_false (by decide : some "None" ≠ some "null") id
  | bool b =>
    cases b with
    | true => exact iff_of_false (by decide : some "True" ≠ some "true") id
    | false => exact iff_of_false (by decide : some "False" ≠ some "false") id
  | int i => exact iff_of_true ((text?_int s i).trans (keyText?_int s i).symm) trivial
  | @float x finite =>
    rw [Uniform, text?_float, keyText?_float, Option.some.injEq]
    exact bare_nameLayout.write_eq_iff sameDigits_floatLayout finite
  | string => exact iff_of_true rfl trivial

/-- A key that is not spelled alike is a word in both, or a float. -/
theorem word_or_float (nameable : Nameable key) (differ : ¬ SpelledAlike key) :
    (∃ word ∈ personWords, ∃ word' ∈ hostWords,
      s.text? key = some word ∧ s.keyText? key = some word') ∨
    ∃ x, key = .float x ∧ x.isFinite = true := by
  cases nameable with
  | int | string => exact absurd trivial differ
  | nothing => exact .inl ⟨"None", by decide, "null", by decide, rfl, rfl⟩
  | bool b =>
    cases b with
    | true => exact .inl ⟨"True", by decide, "true", by decide, rfl, rfl⟩
    | false => exact .inl ⟨"False", by decide, "false", by decide, rfl, rfl⟩
  | float finite => exact .inr ⟨_, rfl, finite⟩

/-- Where the text of one key is the other text of another, one of them has only one text. -/
theorem uniform_or_uniform (nameable : Nameable key) (nameable' : Nameable other)
    (same : s.text? key = s.keyText? other) : Uniform s key ∨ Uniform s other := by
  by_contra neither
  obtain ⟨differ, differ'⟩ := not_or.1 neither
  rw [nameable.uniform_iff] at differ
  rw [nameable'.uniform_iff] at differ'
  have noNumber : ∀ word ∈ personWords ++ hostWords, ¬ Decimal.Numeric word := by decide
  have noWord : ∀ word ∈ personWords, word ∉ hostWords := by decide
  rcases nameable.word_or_float (s := s) differ with ⟨word, isWord, -, -, text, -⟩ | ⟨x, rfl, finite⟩
  · rcases nameable'.word_or_float (s := s) differ' with ⟨-, -, word', isWord', -, text'⟩ | ⟨y, rfl, finite⟩
    · rw [text, text', Option.some.injEq] at same
      exact noWord word isWord (same ▸ isWord')
    · rw [text, keyText?_float, Option.some.injEq] at same
      refine noNumber word (List.mem_append_left _ isWord) ?_
      rw [same]
      exact nameLayout.numeric_write finite
  · rw [text?_float] at same
    rcases nameable'.word_or_float (s := s) differ' with ⟨-, -, word, isWord, -, text⟩ | ⟨y, rfl, finite'⟩
    · rw [text, Option.some.injEq] at same
      refine noNumber word (List.mem_append_right _ isWord) ?_
      rw [← same]
      exact floatLayout.numeric_write finite
    · rw [keyText?_float, Option.some.injEq] at same
      refine differ ?_
      rw [SpelledAlike, same]
      exact bare_nameLayout.plain_write finite'

end Nameable

end Interchange.Script
