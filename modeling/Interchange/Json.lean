import Interchange.Decimal.Layout
import Interchange.TextMap

/-!
# JSON trees

A number is kept as it was meant, an integer of any size, or a decimal when it is written with a
fraction or an exponent; or else as it is written, digit for digit. The members of an object are a
list, so that a text with a repeated or unsorted name has a tree; `Json.normalize` sorts the names
and keeps the last of each.
-/

namespace Interchange

/-- A number as it is written. -/
structure Json.Numeral where
  negative : Bool
  /-- The digits before the point. -/
  whole : List Char
  /-- The digits after the point, if there is a point. -/
  fraction : Option (List Char)
  /-- The exponent, if there is one: whether it is negative, and its digits. -/
  exponent : Option (Bool × List Char)
deriving DecidableEq, Repr

inductive Json.Number where
  | integer (value : Int)
  | decimal (value : Decimal)
  | written (numeral : Json.Numeral)
deriving DecidableEq, Repr

inductive Json where
  | null
  | bool (value : Bool)
  | number (value : Json.Number)
  | string (value : String)
  | array (items : List Json)
  | object (members : List (String × Json))
deriving Inhabited, Repr

namespace Json

/-- Floats have their shortest digits, in positional notation from `10 ^ -5` to below `10 ^ 16`,
and a signed exponent otherwise. -/
def floatLayout : Decimal.Layout where
  plainFrom := -5
  plainBelow := 16
  pointZero := true
  plusSign := true
  tie := .toEven
  candidates := .both
  nan := "null"
  positiveInfinity := "null"
  negativeInfinity := "null"

/-- A binary64 number as JSON has it: what is not finite is null. -/
def ofBinary64 : Binary64 → Json
  | .finite negative rank =>
    .number (.decimal (Decimal.shortest floatLayout.tie floatLayout.candidates negative rank))
  | _ => .null

def ofInt (i : Int) : Json := .number (.integer i)

/-! ## Numbers -/

/-- The natural that digits stand for. -/
def naturalOf (digits : List Char) : Nat :=
  digits.foldl (fun n c => 10 * n + (c.toNat - '0'.toNat)) 0

namespace Numeral

/-- The decimal that is written. -/
def decimal (n : Numeral) : Decimal :=
  let fraction := n.fraction.getD []
  let power : Int := match n.exponent with
    | none => 0
    | some (negative, digits) => if negative then -(naturalOf digits : Int) else naturalOf digits
  ⟨n.negative, naturalOf (n.whole ++ fraction), power - fraction.length⟩

/-- The number that is meant: an integer when there is no fraction and no exponent. -/
def number (n : Numeral) : Number :=
  match n.fraction, n.exponent with
  | none, none =>
    let magnitude : Int := naturalOf n.whole
    .integer (if n.negative then -magnitude else magnitude)
  | _, _ => .decimal n.decimal

/-- The characters of the number. An exponent has a small mark and a sign. -/
def chars (n : Numeral) : List Char :=
  (if n.negative then ['-'] else []) ++ n.whole ++
    (match n.fraction with
      | none => []
      | some digits => '.' :: digits) ++
    (match n.exponent with
      | none => []
      | some (negative, digits) => 'e' :: (if negative then '-' else '+') :: digits)

end Numeral

namespace Number

/-- The number as it is meant. -/
def meant : Number → Number
  | written n => n.number
  | n => n

/-- The nearest binary64 number. -/
def toBinary64 : Number → Binary64
  | integer i => Binary64.ofInt i
  | decimal d => d.toBinary64
  | written n => n.decimal.toBinary64

/-- The written form. -/
def chars : Number → List Char
  | integer i => (toString i).toList
  | decimal d => floatLayout.writeChars d
  | written n => n.chars

end Number

mutual

/-- The tree with the names of every object sorted, and the last member of each name kept. -/
def normalize : Json → Json
  | .array items => .array (normalizeItems items)
  | .object members => .object (TextMap.ofList (normalizeMembers members))
  | .null => .null
  | .bool b => .bool b
  | .number n => .number n
  | .string s => .string s

def normalizeItems : List Json → List Json
  | [] => []
  | item :: rest => normalize item :: normalizeItems rest

def normalizeMembers : List (String × Json) → List (String × Json)
  | [] => []
  | (name, value) :: rest => (name, normalize value) :: normalizeMembers rest

end

end Json
end Interchange
