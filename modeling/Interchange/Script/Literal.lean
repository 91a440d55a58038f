import Interchange.Script.Datum

/-!
# Script text

The part of a script that is written down: literals, function bodies, and the statements of a
script. A statement calls a method of a global object, throws, or defines the global function
`main`.
-/

namespace Interchange.Script

/-- A value as a script writes it. -/
inductive Literal where
  | undefined
  | null
  | bool (value : Bool)
  | number (value : Binary64)
  | string (value : WideString)
  | bigint (value : Int)
  | symbol
  | array (items : List Literal)
  /-- Properties in the order in which they are written. -/
  | record (properties : List (WideString × Literal))
  /-- A function that does nothing. -/
  | function
  /-- A new error with a message. -/
  | error (message : Literal)
  /-- An array that is its own element. -/
  | cyclicArray
  /-- A record whose property `self` is itself. -/
  | cyclicRecord

instance : Inhabited Literal := ⟨.undefined⟩

/-- What a function of a script does. -/
inductive Body where
  | returns (value : Literal)
  /-- Returns the argument at an index. -/
  | argument (index : Nat)
  | throws (value : Literal)
  /-- Writes properties of the first argument and returns it. -/
  | assigns (properties : List (WideString × Literal))
  /-- Returns an array of the arguments. -/
  | gathers

/-- An argument of a method call. -/
inductive Argument where
  | literal (value : Literal)
  | function (body : Body)

inductive Statement where
  /-- Calls a method of a global object. -/
  | call (method : String) (arguments : List Argument)
  | throws (value : Literal)
  /-- Defines the global function `main`. -/
  | main (body : Body)

/-- A literal inside so many arrays. -/
def Literal.inArrays : Nat → Literal → Literal
  | 0, inner => inner
  | n + 1, inner => .array [inArrays n inner]

/-- A literal inside so many records, each under the name `k`. -/
def Literal.inRecords : Nat → Literal → Literal
  | 0, inner => inner
  | n + 1, inner => .record [("k", inRecords n inner)]

end Interchange.Script
