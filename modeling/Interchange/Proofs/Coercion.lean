import Mathlib.Algebra.Ring.Int.Defs
import Interchange.Coercion

/-!
# What a shape takes

A shape denotes a union of values (`Store.Admits`), and of each of them a receiver holds one thing
(`Store.Holds`). However shapes are nested, a receiver takes exactly the values of the union and holds
of them what it should (`unpack_eq_ok_iff`). A refusal speaks of the whole shape and not of the part
that was tried last (`unpack_eq_error_iff`).
-/

namespace Interchange

/-- The integers that a 64-bit receiver takes. -/
theorem Binary64.fitsInt64_iff {i : Int} : fitsInt64 i = true ↔ -2 ^ 63 ≤ i ∧ i < 2 ^ 63 := by
  simp only [fitsInt64, minInt64, maxInt64, Bool.and_eq_true, decide_eq_true_eq]
  omega

namespace Store

/-- The values of a shape. -/
def Admits (s : Store) : Shape → Value → Prop
  | .bool, v => ∃ b, v = .bool b
  | .int, v => ∃ i, v = .int i
  | .int64, v => ∃ i, v = .int i ∧ -2 ^ 63 ≤ i ∧ i < 2 ^ 63
  | .float, v => ∃ x, v = .float x
  | .string, v => ∃ text, v = .string text
  | .bytes, v => ∃ bytes, v = .bytes bytes
  | .time, v => ∃ instant, v = .time instant
  | .list, v => ∃ ref items frozen, v = .object ref ∧ s.cell ref = .list items frozen
  | .dict, v => ∃ ref entries frozen, v = .object ref ∧ s.cell ref = .dict entries frozen
  | .set, v => ∃ ref items frozen, v = .object ref ∧ s.cell ref = .set items frozen
  | .tuple, v => ∃ ref items, v = .object ref ∧ s.cell ref = .tuple items
  | .function, v => ∃ ref function, v = .object ref ∧ s.cell ref = .function function
  | .value, _ => True
  | .intOrFloat, v => (∃ i, v = .int i) ∨ ∃ x, v = .float x
  | .stringOrBytes, v => (∃ text, v = .string text) ∨ ∃ bytes, v = .bytes bytes
  | .nullable inner, v => v = .nothing ∨ s.Admits inner v
  | .either first second, v => v = .nothing ∨ s.Admits first v ∨ s.Admits second v

/-- What a receiver of a shape should hold of a value. The second alternative is for the values that
the first does not admit. -/
def Holds (s : Store) : (shape : Shape) → Value → shape.Carrier → Prop
  | .bool, v, b => v = .bool b
  | .int, v, i => v = .int i
  | .int64, v, i => v = .int i ∧ s.Admits .int64 v
  | .float, v, x => v = .float x
  | .string, v, text => v = .string text
  | .bytes, v, bytes => v = .bytes bytes
  | .time, v, instant => v = .time instant
  | .list, v, ref => v = .object ref ∧ s.Admits .list v
  | .dict, v, ref => v = .object ref ∧ s.Admits .dict v
  | .set, v, ref => v = .object ref ∧ s.Admits .set v
  | .tuple, v, ref => v = .object ref ∧ s.Admits .tuple v
  | .function, v, ref => v = .object ref ∧ s.Admits .function v
  | .value, v, w => v = w
  | .intOrFloat, v, x => (∃ i, v = .int i ∧ x = Binary64.ofInt i) ∨ v = .float x
  | .stringOrBytes, v, held => (∃ text, v = .string text ∧ held = ⟨Text.utf8 text, false⟩) ∨
      ∃ bytes, v = .bytes bytes ∧ held = ⟨bytes, true⟩
  | .nullable _, v, none => v = .nothing
  | .nullable inner, v, some held => v ≠ .nothing ∧ s.Holds inner v held
  | .either _ _, v, .neither => v = .nothing
  | .either first _, v, .left held => v ≠ .nothing ∧ s.Holds first v held
  | .either first second, v, .right held =>
    v ≠ .nothing ∧ ¬ s.Admits first v ∧ s.Holds second v held

/-- What the refusal of a value for a shape says. Only an integer beyond 64 bits has words of its
own, and only where it is not a part of another shape. -/
def mismatch (s : Store) : Shape → Value → Mismatch
  | .int64, .int _ => ⟨"int (out of range)", "int in 64-bit range"⟩
  | shape, v => ⟨s.typeName v, shape.expected⟩

variable {s : Store} {shape first second inner : Shape} {v : Value}

/-! ## Parts of shapes -/

/-- A receiver of a kind of cell takes the references of the cells that pass its test. -/
theorem unpackCell_cases {test : Cell → Bool}
    (admits : s.Admits shape v ↔ ∃ ref, v = .object ref ∧ test (s.cell ref) = true) :
    (∃ ref, s.unpackCell shape test v = .ok ref ∧ v = .object ref ∧ s.Admits shape v) ∨
      ¬ s.Admits shape v ∧ s.unpackCell shape test v = .error ⟨s.typeName v, shape.expected⟩ := by
  cases v with
  | object ref =>
    rw [unpackCell]
    cases passes : test (s.cell ref) with
    | true => exact .inl ⟨ref, rfl, rfl, admits.2 ⟨ref, rfl, passes⟩⟩
    | false =>
      refine .inr ⟨fun isAdmitted => ?_, rfl⟩
      obtain ⟨r, same, passes'⟩ := admits.1 isAdmitted
      cases same
      rw [passes] at passes'
      cases passes'
  | nothing | bool | int | float | string | bytes | time =>
    refine .inr ⟨fun isAdmitted => ?_, rfl⟩
    obtain ⟨ref, same, -⟩ := admits.1 isAdmitted
    cases same

theorem unpack_nullable (present : v ≠ .nothing) :
    s.unpack (.nullable inner) v = match s.unpack inner v with
      | .ok held => .ok (some held)
      | .error _ => .error ⟨s.typeName v, (Shape.nullable inner).expected⟩ := by
  cases v with
  | nothing => exact absurd rfl present
  | bool | int | float | string | bytes | time | object => rfl

theorem unpack_either (present : v ≠ .nothing) :
    s.unpack (.either first second) v = match s.unpack first v with
      | .ok held => .ok (.left held)
      | .error _ =>
        match s.unpack second v with
        | .ok held => .ok (.right held)
        | .error _ => .error ⟨s.typeName v, (Shape.either first second).expected⟩ := by
  cases v with
  | nothing => exact absurd rfl present
  | bool | int | float | string | bytes | time | object => rfl

/-! ## Whole shapes -/

/-- A receiver holds what it should of a value, or refuses a value that is not of its shape. -/
theorem unpack_cases (s : Store) (shape : Shape) (v : Value) :
    (∃ held, s.unpack shape v = .ok held ∧ s.Holds shape v held) ∨
      ¬ s.Admits shape v ∧ s.unpack shape v = .error (s.mismatch shape v) := by
  induction shape with
  | bool | int | float | string | bytes | time =>
    cases v <;> first | exact .inl ⟨_, rfl, rfl⟩ | exact .inr ⟨nofun, rfl⟩
  | int64 =>
    cases v with
    | int i =>
      rw [unpack]
      cases fits : Binary64.fitsInt64 i with
      | true => exact .inl ⟨i, rfl, rfl, i, rfl, Binary64.fitsInt64_iff.1 fits⟩
      | false =>
        refine .inr ⟨?_, rfl⟩
        rintro ⟨_, same, range⟩
        cases same
        rw [Binary64.fitsInt64_iff.2 range] at fits
        cases fits
    | nothing | bool | float | string | bytes | time | object => exact .inr ⟨nofun, rfl⟩
  | list | dict | set | tuple | function =>
    refine unpackCell_cases ?_
    refine exists_congr fun ref => ?_
    cases s.cell ref <;> simp
  | value => exact .inl ⟨v, rfl, rfl⟩
  | intOrFloat =>
    cases v with
    | int i => exact .inl ⟨Binary64.ofInt i, rfl, .inl ⟨i, rfl, rfl⟩⟩
    | float x => exact .inl ⟨x, rfl, .inr rfl⟩
    | nothing | bool | string | bytes | time | object => exact .inr ⟨nofun, rfl⟩
  | stringOrBytes =>
    cases v with
    | string text => exact .inl ⟨⟨Text.utf8 text, false⟩, rfl, .inl ⟨text, rfl, rfl⟩⟩
    | bytes bytes => exact .inl ⟨⟨bytes, true⟩, rfl, .inr ⟨bytes, rfl, rfl⟩⟩
    | nothing | bool | int | float | time | object => exact .inr ⟨nofun, rfl⟩
  | nullable inner ih =>
    by_cases absent : v = .nothing
    · subst absent
      exact .inl ⟨none, rfl, rfl⟩
    · rw [unpack_nullable absent]
      rcases ih with ⟨held, taken, holds⟩ | ⟨refused, failed⟩
      · rw [taken]
        exact .inl ⟨some held, rfl, absent, holds⟩
      · rw [failed]
        exact .inr ⟨fun isAdmitted => isAdmitted.elim absent refused, rfl⟩
  | either first second ihFirst ihSecond =>
    by_cases absent : v = .nothing
    · subst absent
      exact .inl ⟨.neither, rfl, rfl⟩
    · rw [unpack_either absent]
      rcases ihFirst with ⟨held, taken, holds⟩ | ⟨refused, failed⟩
      · rw [taken]
        exact .inl ⟨.left held, rfl, absent, holds⟩
      · rw [failed]
        rcases ihSecond with ⟨held, taken, holds⟩ | ⟨refused', failed'⟩
        · rw [taken]
          exact .inl ⟨.right held, rfl, absent, refused, holds⟩
        · rw [failed']
          exact .inr ⟨fun isAdmitted => isAdmitted.elim absent (Or.rec refused refused'), rfl⟩

theorem Holds.admits {held : shape.Carrier} (holds : s.Holds shape v held) : s.Admits shape v := by
  induction shape with
  | bool | int | float | string | bytes | time => exact ⟨held, holds⟩
  | int64 | list | dict | set | tuple | function => exact holds.2
  | value => trivial
  | intOrFloat =>
    rcases holds with ⟨i, same, -⟩ | same
    · exact .inl ⟨i, same⟩
    · exact .inr ⟨held, same⟩
  | stringOrBytes =>
    rcases holds with ⟨text, same, -⟩ | ⟨bytes, same, -⟩
    · exact .inl ⟨text, same⟩
    · exact .inr ⟨bytes, same⟩
  | nullable inner ih =>
    cases held with
    | none => exact .inl holds
    | some held => exact .inr (ih holds.2)
  | either first second ihFirst ihSecond =>
    cases held with
    | neither => exact .inl holds
    | left held => exact .inr (.inl (ihFirst holds.2))
    | right held => exact .inr (.inr (ihSecond holds.2.2))

/-- Of one value, one thing is held. -/
theorem Holds.unique {held other : shape.Carrier} (holds : s.Holds shape v held)
    (holds' : s.Holds shape v other) : held = other := by
  induction shape with
  | bool | int | float | string | bytes | time | value =>
    cases holds
    cases holds'
    rfl
  | int64 | list | dict | set | tuple | function =>
    cases holds.1
    cases holds'.1
    rfl
  | intOrFloat =>
    rcases holds with ⟨i, rfl, rfl⟩ | rfl
    · rcases holds' with ⟨j, same, rfl⟩ | same <;> cases same
      rfl
    · rcases holds' with ⟨j, same, rfl⟩ | same <;> cases same
      rfl
  | stringOrBytes =>
    rcases holds with ⟨text, rfl, rfl⟩ | ⟨bytes, rfl, rfl⟩
    · rcases holds' with ⟨other, same, rfl⟩ | ⟨other, same, rfl⟩ <;> cases same
      rfl
    · rcases holds' with ⟨other, same, rfl⟩ | ⟨other, same, rfl⟩ <;> cases same
      rfl
  | nullable inner ih =>
    cases held with
    | none =>
      cases other with
      | none => rfl
      | some other => exact absurd holds holds'.1
    | some held =>
      cases other with
      | none => exact absurd holds' holds.1
      | some other => rw [ih holds.2 holds'.2]
  | either first second ihFirst ihSecond =>
    cases held with
    | neither =>
      cases other with
      | neither => rfl
      | left | right => exact absurd holds holds'.1
    | left held =>
      cases other with
      | neither => exact absurd holds' holds.1
      | left other => rw [ihFirst holds.2 holds'.2]
      | right => exact absurd holds.2.admits holds'.2.1
    | right held =>
      cases other with
      | neither => exact absurd holds' holds.1
      | left => exact absurd holds'.2.admits holds.2.1
      | right other => rw [ihSecond holds.2.2 holds'.2.2]

theorem unpack_eq_ok_iff {held : shape.Carrier} :
    s.unpack shape v = .ok held ↔ s.Holds shape v held := by
  rcases unpack_cases s shape v with ⟨other, taken, holds⟩ | ⟨refused, failed⟩
  · rw [taken]
    constructor
    · intro same
      cases same
      exact holds
    · exact fun holds' => congrArg Except.ok (holds.unique holds')
  · rw [failed]
    exact ⟨nofun, fun holds => absurd holds.admits refused⟩

theorem exists_unpack_iff : (∃ held, s.unpack shape v = .ok held) ↔ s.Admits shape v := by
  constructor
  · rintro ⟨held, taken⟩
    exact (unpack_eq_ok_iff.1 taken).admits
  · intro isAdmitted
    rcases unpack_cases s shape v with ⟨held, taken, -⟩ | ⟨refused, -⟩
    · exact ⟨held, taken⟩
    · exact absurd isAdmitted refused

theorem unpack_eq_error_iff {e : Mismatch} :
    s.unpack shape v = .error e ↔ ¬ s.Admits shape v ∧ e = s.mismatch shape v := by
  rcases unpack_cases s shape v with ⟨held, taken, holds⟩ | ⟨refused, failed⟩
  · rw [taken]
    exact ⟨nofun, fun ⟨refused, _⟩ => absurd holds.admits refused⟩
  · rw [failed]
    exact ⟨fun same => ⟨refused, (Except.error.inj same).symm⟩, fun ⟨_, same⟩ => by rw [same]⟩

/-- A receiver takes exactly the values of the union that its shape denotes, and holds of each what it
should. A nullable shape is absent, and neither alternative is taken, only for nothing. Of any other
value the first alternative is taken whenever it takes the value, and the second only when the first
refuses it. A refusal always speaks of the whole shape, but for an integer beyond 64 bits where the
shape is of nothing else. -/
theorem unpack_takes_union (s : Store) (shape : Shape) (v : Value) :
    ((∃ held, s.unpack shape v = .ok held) ↔ s.Admits shape v) ∧
    (∀ held, s.unpack shape v = .ok held ↔ s.Holds shape v held) ∧
    (∀ inner, s.unpack (.nullable inner) v = .ok none ↔ v = .nothing) ∧
    (∀ first second,
      (s.unpack (.either first second) v = .ok .neither ↔ v = .nothing) ∧
      (∀ held, s.unpack (.either first second) v = .ok (.left held) ↔
        v ≠ .nothing ∧ s.unpack first v = .ok held) ∧
      ∀ held, s.unpack (.either first second) v = .ok (.right held) ↔
        v ≠ .nothing ∧ ¬ s.Admits first v ∧ s.unpack second v = .ok held) ∧
    ∀ e, s.unpack shape v = .error e ↔ ¬ s.Admits shape v ∧ e = s.mismatch shape v := by
  refine ⟨exists_unpack_iff, fun held => unpack_eq_ok_iff, fun inner => unpack_eq_ok_iff,
    fun first second => ⟨unpack_eq_ok_iff, fun held => ?_, fun held => ?_⟩,
    fun e => unpack_eq_error_iff⟩
  · exact unpack_eq_ok_iff.trans (and_congr_right fun _ => unpack_eq_ok_iff.symm)
  · refine unpack_eq_ok_iff.trans (and_congr_right fun _ => and_congr_right fun _ => ?_)
    exact unpack_eq_ok_iff.symm

/-- The refusal of an integer beyond 64 bits speaks of a whole shape like any other, as soon as the
shape is of more than these. -/
example : empty.unpack (.either (.nullable .int64) .string) (.int (2 ^ 63)) =
    .error ⟨"int", "int or None or string or None"⟩ := rfl

end Store
end Interchange
