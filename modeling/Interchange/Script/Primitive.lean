import Interchange.Json
import Interchange.Script.Property
import Interchange.Text.Blank

/-!
# Texts and numbers of script values

What a script makes of a value where it wants a text or a number. An object is asked by its methods
for a value that is no object, so both need a way to call functions.
-/

namespace Interchange.Script

/-- A way to call a function: the function, what it is called on, and the arguments. -/
abbrev Caller := Datum → Datum → List Datum → Run Datum

/-- The value, not an object, that the first of some methods answers. -/
def primitiveBy (call : Caller) (d : Datum) : List String → Run Datum
  | [] => Run.raise "toPrimitive"
  | name :: rest => do
    let method ← property d name
    if ← isFunction method then
      let answer ← call method d []
      if answer.isObject then primitiveBy call d rest else return answer
    else primitiveBy call d rest

/-! ## Texts -/

/-- The text of a value that is no object. -/
def plainText : Datum → Run WideString
  | .undefined => return "undefined"
  | .null => return "null"
  | .bool b => return if b then "true" else "false"
  | .number x => return if x.isZero then "0" else numberLayout.write x
  | .string s => return s
  | .bigint i => return toString i
  | .symbol => Run.raise "cannot convert symbol to string"
  | .object _ => return ""
  | .builtin _ => return ""

/-- The text of a value. -/
def textOf (call : Caller) (d : Datum) : Run WideString := do
  if d.isObject then plainText (← primitiveBy call d ["toString", "valueOf"]) else plainText d

/-! ## Numbers -/

/-- Is a character a blank around a number? The mark of the byte order is one, and the next line
is none. -/
def isBlank (c : Char) : Bool := c = '\uFEFF' || (Text.isBlank c && c ≠ '\u0085')

/-- The value of a digit in a base. -/
def digitIn? (base : Nat) (c : Char) : Option Nat :=
  let value? : Option Nat :=
    if c.isDigit then some (c.toNat - '0'.toNat)
    else if 'a' ≤ c ∧ c ≤ 'f' then some (c.toNat - 'a'.toNat + 10)
    else if 'A' ≤ c ∧ c ≤ 'F' then some (c.toNat - 'A'.toNat + 10)
    else none
  value?.filter (· < base)

/-- The number that digits spell in a base. -/
def numberIn (base : Nat) (digits : List Char) : Binary64 :=
  match digits.mapM (digitIn? base) with
  | some (first :: rest) =>
    let n : Nat := (first :: rest).foldl (fun n digit => base * n + digit) 0
    Binary64.ofInt n
  | _ => .nan

/-- The exponent behind a mark, if there is one and nothing else. -/
def exponentOf? : List Char → Option Int
  | [] => some 0
  | mark :: rest =>
    if mark = 'e' || mark = 'E' then
      let (negative, digits) := match rest with
        | '-' :: digits => (true, digits)
        | '+' :: digits => (false, digits)
        | digits => (false, digits)
      if digits.isEmpty || !digits.all Char.isDigit then none
      else
        let n : Int := Json.naturalOf digits
        some (if negative then -n else n)
    else none

/-- The number of digits, a point among them or not, and an exponent. -/
def decimalNumber (negative : Bool) (chars : List Char) : Binary64 :=
  let whole := chars.takeWhile Char.isDigit
  let rest := chars.dropWhile Char.isDigit
  let (fraction, rest) := match rest with
    | '.' :: rest => (rest.takeWhile Char.isDigit, rest.dropWhile Char.isDigit)
    | rest => ([], rest)
  if whole.isEmpty && fraction.isEmpty then
    if chars = "Infinity".toList then .infinity negative else .nan
  else
    match exponentOf? rest with
    | some exponent =>
      (⟨negative, Json.naturalOf (whole ++ fraction), exponent - fraction.length⟩ :
        Decimal).toBinary64
    | none => .nan

/-- The number that a text spells; the blank text spells zero. -/
def numberOfText (text : String) : Binary64 :=
  match Text.trimmed isBlank text.toList with
  | [] => .zero
  | '0' :: mark :: digits =>
    if mark = 'x' || mark = 'X' then numberIn 16 digits
    else if mark = 'o' || mark = 'O' then numberIn 8 digits
    else if mark = 'b' || mark = 'B' then numberIn 2 digits
    else decimalNumber false ('0' :: mark :: digits)
  | '-' :: chars => decimalNumber true chars
  | '+' :: chars => decimalNumber false chars
  | chars => decimalNumber false chars

/-- The number that a string spells; a surrogate that is part of no pair is in none. -/
def numberOfString : WideString → Binary64
  | .text text => numberOfText text
  | .broken _ => .nan

/-- The number of a value that is no object. -/
def plainNumber : Datum → Run Binary64
  | .null => return .zero
  | .bool b => return if b then Binary64.ofInt 1 else .zero
  | .number x => return x
  | .string s => return numberOfString s
  | .symbol => Run.raise "cannot convert symbol to number"
  | .bigint _ => Run.raise "cannot convert bigint to number"
  | _ => return .nan

/-- The number of a value. -/
def numberOf (call : Caller) (d : Datum) : Run Binary64 := do
  if d.isObject then plainNumber (← primitiveBy call d ["valueOf", "toString"]) else plainNumber d

/-- The length that an array is given: an integer of 32 bits without a sign. -/
def lengthOf (call : Caller) (d : Datum) : Run Nat := do
  let wanted : Option Int ← match d with
    | .bigint i => pure (some i)
    | d => do pure (← numberOf call d).integer?
  match wanted with
  | some (.ofNat n) => if n ≤ maxIndex + 1 then return n else Run.raise "invalid array length"
  | _ => Run.raise "invalid array length"

/-- Writes a property of a value. -/
def assign (call : Caller) (target : Datum) (name : WideString) (d : Datum) : Run Unit := do
  match target with
  | .object place =>
    let object ← Run.read place
    match object.nature with
    | .array items =>
      if name = "length" then
        let length ← lengthOf call d
        Run.write place { object with nature := .array (resize length items) }
      else Run.write place (← object.put name d)
    | _ => Run.write place (← object.put name d)
  | .string _ =>
    if name = "length" then Run.raise (nameMessage "'" name "' is read-only")
    else if name = prototypeName then return ()
    else Run.raise "not an object"
  | _ => if name = prototypeName then return () else Run.raise "not an object"

end Interchange.Script
