import Interchange.Decimal.Layout
import Interchange.Script.Builtin
import Interchange.Text.WideString
import Interchange.Value

/-!
# Script values

What a script works on. Numbers are floats, and strings are made of wide units; arrays, records,
functions and errors are objects of the script's own heap and are known by their place there, but for
the objects that every session begins with.
-/

namespace Interchange.Script

/-- The place of an object in a script heap. -/
structure Place where
  index : Nat
deriving DecidableEq, Repr

inductive Datum where
  | undefined
  | null
  | bool (value : Bool)
  | number (value : Binary64)
  | string (value : WideString)
  | bigint (value : Int)
  | symbol
  | object (place : Place)
  | builtin (object : Builtin)
deriving DecidableEq, Repr

namespace Datum

instance : Inhabited Datum := ⟨.undefined⟩

def isObject : Datum → Bool
  | object _ => true
  | builtin _ => true
  | _ => false

/-- Stands a value for nothing? -/
def isNullish : Datum → Bool
  | undefined => true
  | null => true
  | _ => false

end Datum

/-- The methods that a script sees on a shared mapping. -/
inductive MappingMethod where
  | get
  | set
  | has
  | size
  | keys
  | toDict
  | toJson
  | fromJson
  | freeze
  | perform
deriving DecidableEq, Repr

namespace MappingMethod

def name : MappingMethod → String
  | get => "get"
  | set => "set"
  | has => "has"
  | size => "len"
  | keys => "keys"
  | toDict => "to_dict"
  | toJson => "to_json"
  | fromJson => "from_json"
  | freeze => "freeze"
  | perform => "perform"

/-- All methods, in the order in which a script finds them. -/
def all : List MappingMethod :=
  [get, set, has, size, keys, toDict, toJson, fromJson, freeze, perform]

/-- How many arguments a method needs; more are passed over. -/
def needed : MappingMethod → Nat
  | get => 1
  | set => 2
  | has => 1
  | fromJson => 1
  | perform => 1
  | _ => 0

end MappingMethod

/-! ## Numbers -/

/-- Numbers have the fewest digits that a number can be rounded to and still reads back, in
positional notation from `10 ^ -6` to below `10 ^ 21`. -/
def numberLayout : Decimal.Layout where
  plainFrom := -6
  plainBelow := 21
  pointZero := false
  plusSign := true
  tie := .toEven
  candidates := .nearer
  nan := "NaN"
  positiveInfinity := "Infinity"
  negativeInfinity := "-Infinity"

/-- Does an integer fit 32 signed bits? -/
def fitsInt32 (i : Int) : Bool := decide (-2147483648 ≤ i) && decide (i ≤ 2147483647)

/-- The 32-bit integer that a number stands for; the negative zero is none. -/
def int32? (x : Binary64) : Option Int :=
  match x with
  | .finite true ⟨0, _⟩ => none
  | x => x.integer?.filter fitsInt32

/-- The number of an integer: exact in 32 bits, and the nearest float otherwise. -/
def numberOfInt (i : Int) : Datum := .number (Binary64.ofInt i)

end Interchange.Script
