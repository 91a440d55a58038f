import Mathlib.Algebra.BigOperators.Group.List.Basic
import Interchange.Library
import Interchange.Proofs.History

/-!
# What a running sum comes to

Of the calls on a running sum only the numbers matter: what is refused and what is nothing leave it
as it was (`after_eq`). The sum of the numbers is a float from the first float on; before, it is the
exact sum of the integers, however large, and then every number is added as a float
(`isTotal_totalOf`). The function `sum` of the library gives the sum of the elements of a list,
unless there is one that is no number and not nothing (`runOn_sum`).
-/

namespace Interchange

open Store

namespace RunningSum

/-- A number that can be added. -/
inductive Number where
  | int (i : Int)
  | float (x : Binary64)
deriving DecidableEq, Repr

/-- The nearest float. -/
def Number.toBinary64 : Number → Binary64
  | .int i => Binary64.ofInt i
  | .float x => x

/-- A call on a running sum, which takes a value of a store or a float. -/
inductive Call where
  | add (store : Store) (v : Value)
  | addFloat (x : Binary64)

/-- The number of a value. -/
def number? : Value → Option Number
  | .int i => some (.int i)
  | .float x => some (.float x)
  | _ => none

/-- The number that a call adds. -/
def Call.number? : Call → Option Number
  | .add _ v => RunningSum.number? v
  | .addFloat x => some (.float x)

/-- The sum that a call leaves: the old one, if the call fails. -/
def after (sum : RunningSum) : Call → RunningSum
  | .add store v =>
    match sum.add store v with
    | .ok total => total
    | .error _ => sum
  | .addFloat x => sum.addFloat x

/-- The sum after calls in a row. -/
def afterAll (sum : RunningSum) (calls : List Call) : RunningSum := calls.foldl after sum

/-- The sum with one number more. -/
def plus (sum : RunningSum) : Number → RunningSum
  | .int i => sum.addInt i
  | .float x => sum.addFloat x

/-- The sum of numbers, from left to right. -/
def totalOf (numbers : List Number) : RunningSum := numbers.foldl plus zero

/-- Values that are added or are skipped, and not refused. -/
def takes : Value → Bool
  | .nothing | .int _ | .float _ => true
  | _ => false

/-- The refusal of a value. -/
def refusal (store : Store) (v : Value) : Mismatch := ⟨store.typeName v, "int or float or None"⟩

/-- What the sum of numbers has to be. -/
structure IsTotal (numbers : List Number) (sum : RunningSum) : Prop where
  isRounded_iff : sum.isRounded = true ↔ ∃ x, .float x ∈ numbers
  /-- Integers are added exactly. -/
  exact : ∀ ints : List Int, numbers = ints.map .int → sum.value = .int ints.sum
  /-- From the first float on, all are floats, and so is the sum of the integers before. -/
  rounded : ∀ (ints : List Int) (x : Binary64) (rest : List Number),
    numbers = ints.map .int ++ .float x :: rest →
      sum.value = .float (((.float x :: rest).map Number.toBinary64).foldl Binary64.add
        (Binary64.ofInt ints.sum))

variable {store : Store} {v : Value} {sum : RunningSum} {numbers : List Number} {calls : List Call}

/-! ## One call -/

/-- What is taken changes the sum by its number, and all else is refused. -/
theorem add_eq (sum : RunningSum) (store : Store) (v : Value) : sum.add store v =
    if takes v then .ok ((number? v).elim sum sum.plus) else .error (refusal store v) := by
  cases v <;> rfl

theorem after_eq (sum : RunningSum) (call : Call) :
    sum.after call = call.number?.elim sum sum.plus := by
  cases call with
  | add store v => cases v <;> rfl
  | addFloat x => rfl

/-! ## Calls in a row -/

/-- Calls add their numbers. -/
theorem afterAll_eq (sum : RunningSum) (calls : List Call) :
    sum.afterAll calls = (calls.filterMap Call.number?).foldl plus sum := by
  induction calls generalizing sum with
  | nil => rfl
  | cons call calls ih =>
    rw [afterAll, List.foldl_cons, ← afterAll, ih, after_eq, List.filterMap_cons]
    cases call.number? <;> rfl

theorem foldl_plus_exact (total : Int) (ints : List Int) :
    (ints.map Number.int).foldl plus (exact total) = exact (total + ints.sum) := by
  induction ints generalizing total with
  | nil => simp
  | cons i ints ih =>
    have first : (exact total).plus (.int i) = exact (total + i) := rfl
    rw [List.map_cons, List.foldl_cons, first, ih, List.sum_cons, add_assoc]

/-- A sum that is a float stays one. -/
theorem foldl_plus_rounded (total : Binary64) (numbers : List Number) :
    numbers.foldl plus (rounded total) =
      rounded ((numbers.map Number.toBinary64).foldl Binary64.add total) := by
  induction numbers generalizing total with
  | nil => rfl
  | cons number numbers ih =>
    have first : (rounded total).plus number = rounded (total.add number.toBinary64) := by
      cases number <;> rfl
    rw [List.foldl_cons, first, ih, List.map_cons, List.foldl_cons]

theorem totalOf_ints (ints : List Int) : totalOf (ints.map .int) = exact ints.sum := by
  rw [totalOf, zero, foldl_plus_exact, zero_add]

theorem totalOf_append_float (ints : List Int) (x : Binary64) (rest : List Number) :
    totalOf (ints.map .int ++ .float x :: rest) =
      rounded (((.float x :: rest).map Number.toBinary64).foldl Binary64.add
        (Binary64.ofInt ints.sum)) := by
  have turn : (exact ints.sum).plus (.float x) = rounded ((Binary64.ofInt ints.sum).add x) := rfl
  rw [totalOf, List.foldl_append, ← totalOf, totalOf_ints, List.foldl_cons, turn,
    foldl_plus_rounded, List.map_cons, List.foldl_cons, Number.toBinary64]

/-- Numbers are integers alone, or integers up to a first float. -/
theorem ints_or_float (numbers : List Number) : (∃ ints : List Int, numbers = ints.map .int) ∨
    ∃ (ints : List Int) (x : Binary64) (rest : List Number),
      numbers = ints.map .int ++ .float x :: rest := by
  induction numbers with
  | nil => exact .inl ⟨[], rfl⟩
  | cons number numbers ih =>
    cases number with
    | float x => exact .inr ⟨[], x, numbers, rfl⟩
    | int i =>
      obtain ⟨ints, rfl⟩ | ⟨ints, x, rest, rfl⟩ := ih
      · exact .inl ⟨i :: ints, rfl⟩
      · exact .inr ⟨i :: ints, x, rest, rfl⟩

theorem isTotal_totalOf (numbers : List Number) : IsTotal numbers (totalOf numbers) where
  isRounded_iff := by
    obtain ⟨ints, rfl⟩ | ⟨ints, x, rest, rfl⟩ := ints_or_float numbers
    · simp [totalOf_ints, isRounded]
    · rw [totalOf_append_float]
      exact ⟨fun _ => ⟨x, by simp⟩, fun _ => rfl⟩
  exact ints same := by rw [same, totalOf_ints, value]
  rounded ints x rest same := by rw [same, totalOf_append_float, value]

/-! ## Lists -/

/-- Values are added up to the first that is refused. -/
theorem addAll_eq (store : Store) (items : List Value) (sum : RunningSum) :
    sum.addAll store items = match items.find? (!takes ·) with
      | none => .ok (sum.afterAll (items.map (.add store)))
      | some v => .error (refusal store v) := by
  induction items generalizing sum with
  | nil => rfl
  | cons v items ih =>
    have step : sum.addAll store (v :: items) = sum.add store v >>= (·.addAll store items) := rfl
    rw [step, add_eq, List.find?_cons]
    cases taken : takes v with
    | false => rfl
    | true =>
      have left : (number? v).elim sum sum.plus = sum.after (.add store v) :=
        (after_eq sum (.add store v)).symm
      have next : (Except.ok (sum.after (.add store v)) >>= (·.addAll store items) :
        Except Mismatch RunningSum) = (sum.after (.add store v)).addAll store items := rfl
      rw [if_pos rfl, left, next, ih]
      rfl

/-- The library function adds the elements of a list and leaves the store as it is. -/
theorem runOn_sum {s : Store} {list : Ref} {items : List Value} {frozen : Bool}
    (cell : s.cell list = .list items frozen) :
    (LibraryFunction.sum.run [.object list]).runOn s =
      (match items.find? (!takes ·) with
        | none => .ok (zero.afterAll (items.map (.add s))).value
        | some v => .error (.shape "sum" (refusal s v)), s) := by
  have isList : s.unpack .list (.object list) = .ok list := by
    rw [unpack, unpackCell, cell]
    rfl
  have held : Arguments.required s "sum" .list [.object list] 0 = .ok list := by
    change Arguments.unpackAt s "sum" .list (.object list) 0 = .ok list
    unfold Arguments.unpackAt
    rw [isList]
  have taken : (Op.ofExcept (Arguments.required s "sum" .list [.object list] 0)).runOn s =
      (.ok list, s) := by
    rw [held, Op.runOn_ofExcept]
  have body : (LibraryFunction.sum.run [.object list]).runOn s =
      (do
        let list ← Op.ofExcept (Arguments.required s "sum" .list [.object list] 0)
        match zero.addAll s (ValueList.itemsOf (s.cell list)) with
        | .ok total => return total.value
        | .error mismatch => throw (.shape "sum" mismatch) : Op Value).runOn s := rfl
  rw [body, Op.runOn_bind_of_ok taken, cell, ValueList.itemsOf, addAll_eq]
  cases items.find? (!takes ·) <;> rfl

/-- **A running sum is the sum of its numbers.** Whatever is called on a new sum, it is exact up to
the first float and a float from there on; a call that adds no number, since it is refused or adds
nothing, leaves no trace; and only what is no number and not nothing is refused. The library
function `sum` gives what the elements of a list come to, one after the other, or refuses the first
that cannot be added. -/
theorem sum_of_calls :
    (∀ calls : List Call, IsTotal (calls.filterMap Call.number?) (zero.afterAll calls)) ∧
    (∀ (sum : RunningSum) (call : Call), call.number? = none → sum.after call = sum) ∧
    (∀ (sum : RunningSum) (store : Store) (v : Value), if takes v
      then sum.add store v = .ok (sum.after (.add store v))
      else sum.add store v = .error (refusal store v) ∧ sum.after (.add store v) = sum) ∧
    ∀ (s : Store) (list : Ref) (items : List Value) (frozen : Bool),
      s.cell list = .list items frozen →
      (LibraryFunction.sum.run [.object list]).runOn s =
        (match items.find? (!takes ·) with
          | none => .ok (zero.afterAll (items.map (.add s))).value
          | some v => .error (.shape "sum" (refusal s v)), s) := by
  refine ⟨fun calls => ?_, fun sum call none => ?_, fun sum store v => ?_,
    fun s list items frozen cell => runOn_sum cell⟩
  · rw [afterAll_eq]
    exact isTotal_totalOf _
  · rw [after_eq, none, Option.elim_none]
  · cases v <;> first | exact rfl | exact ⟨rfl, rfl⟩

/-- A list that turns to a float at 2⁵³ + 1, one with a text in it, and 3, 0.1 and 0.2. -/
def tallied : Store := empty.after
  [.newList [.int 9007199254740992, .nothing, .int 1, .float (Binary64.ofInt 1), .int 1],
    .newList [.int 1, .string "a", .bool true],
    .newList [.int 3, .float (Binary64.ofRatio false 1 10), .float (Binary64.ofRatio false 1 5)]]

/-- The last list comes to 3.3000000000000003. -/
theorem sum_of_tallied :
    (LibraryFunction.sum.run [.object ⟨0⟩]).runOn tallied =
      (.ok (.float (Binary64.ofInt 9007199254740992)), tallied) ∧
    (LibraryFunction.sum.run [.object ⟨1⟩]).runOn tallied =
      (.error (.shape "sum" ⟨"string", "int or float or None"⟩), tallied) ∧
    (LibraryFunction.sum.run [.object ⟨2⟩]).runOn tallied =
      (.ok (.float (Binary64.ofRatio false 33000000000000003 10000000000000000)), tallied) ∧
    (zero.afterAll [.add tallied (.int 9007199254740992), .add tallied (.string "a"),
      .add tallied (.int 1)]).value = .int 9007199254740993 ∧
    (zero.after (.add tallied .nothing)) = zero ∧
    (zero.afterAll [.add tallied (.int 9007199254740993), .addFloat (Binary64.ofInt 1)]).value =
      .float (Binary64.ofInt 9007199254740992) := by
  obtain ⟨total, idle, -, sums⟩ := sum_of_calls
  refine ⟨(sums tallied ⟨0⟩ _ false rfl).trans ?_, (sums tallied ⟨1⟩ _ false rfl).trans ?_,
    (sums tallied ⟨2⟩ _ false rfl).trans ?_,
    ((total _).exact [9007199254740992, 1] rfl).trans (by decide), idle _ _ rfl,
    ((total _).rounded [9007199254740993] (Binary64.ofInt 1) [] rfl).trans (by decide +kernel)⟩
  · refine congrArg (·, tallied) ?_
    decide +kernel
  · rfl
  · refine congrArg (·, tallied) ?_
    decide +kernel

end RunningSum
end Interchange
