import Interchange.Json.Parser
import Interchange.Script.Literal
import Interchange.Text.Hex

/-!
# Scripts as JSON

A script is kept as a JSON array of statements. Null, truth values and strings stand for
themselves; every other literal is an object with one member, whose name says what it is. A
statement names the method that is called, with literals or a function as its arguments, or it
throws, or it defines `main`.
-/

namespace Interchange.Script

/-- The float of a pattern of bits in hexadecimal digits. -/
def floatOfBits (digits : String) : Binary64 :=
  if digits = "nan" then .nan
  else .ofBits (Text.hexNumber digits.toList)

def natural? : Json → Option Nat
  | .number (.integer i) => some i.toNat
  | _ => none

/-- An index; a negative one is past the end of every list. -/
def index? : Json → Option Nat
  | .number (.integer i) => some (i % 18446744073709551616).toNat
  | _ => none

def text? : Json → Option String
  | .string s => some s
  | _ => none

mutual

/-- The literal that a tree describes. -/
def Literal.ofJson? : Json → Option Literal
  | .null => some .null
  | .bool b => some (.bool b)
  | .string s => some (.string s)
  | .object [(tag, content)] =>
    match tag with
    | "undefined" => some .undefined
    | "int" =>
      match content with
      | .number (.integer i) => some (.number (Binary64.ofInt i))
      | _ => none
    | "num" =>
      match content with
      | .string digits => some (.number (floatOfBits digits))
      | _ => none
    | "bigint" =>
      match content with
      | .string digits => digits.toInt?.map .bigint
      | _ => none
    | "arr" => (itemsOfJson? content).map .array
    | "obj" => (propertiesOfJson? content).map .record
    | "func" => some .function
    | "symbol" => some .symbol
    | "error" => (Literal.ofJson? content).map .error
    | "cycle_arr" => some .cyclicArray
    | "cycle_obj" => some .cyclicRecord
    | "nest" => nestOfJson? content
    | _ => none
  | _ => none

def itemsOfJson? : Json → Option (List Literal)
  | .array items => eachOfJson? items
  | _ => none

def eachOfJson? : List Json → Option (List Literal)
  | [] => some []
  | item :: rest => do
    let literal ← Literal.ofJson? item
    return literal :: (← eachOfJson? rest)

def propertiesOfJson? : Json → Option (List (WideString × Literal))
  | .array items => eachPropertyOfJson? items
  | _ => none

def eachPropertyOfJson? : List Json → Option (List (WideString × Literal))
  | [] => some []
  | .array [.string name, item] :: rest => do
    let literal ← Literal.ofJson? item
    return (name, literal) :: (← eachPropertyOfJson? rest)
  | _ => none

/-- A literal inside a number of arrays or records. -/
def nestOfJson? : Json → Option Literal
  | .object members => do
    let inner ← innerOfJson? members
    let levels ← natural? (← members.lookup "n")
    match ← text? (← members.lookup "kind") with
    | "arr" => return inner.inArrays levels
    | "obj" => return inner.inRecords levels
    | _ => none
  | _ => none

/-- The literal of the member `inner`. -/
def innerOfJson? : List (String × Json) → Option Literal
  | [] => none
  | (name, content) :: rest =>
    if name = "inner" then Literal.ofJson? content else innerOfJson? rest

end

/-- The function body that a tree describes. -/
def Body.ofJson? : Json → Option Body
  | .object [] => some .gathers
  | .object [(tag, content)] =>
    match tag with
    | "ret" => (Literal.ofJson? content).map .returns
    | "arg" => (index? content).map .argument
    | "throw" => (Literal.ofJson? content).map .throws
    | "set" => (propertiesOfJson? content).map .assigns
    | _ => none
  | _ => none

/-- The statement that a tree describes. -/
def Statement.ofJson? : Json → Option Statement
  | .object members =>
    match members.lookup "m" with
    | some method => do
      let method ← text? method
      match members.lookup "fn" with
      | some body => return .call method [.function (← Body.ofJson? body)]
      | none =>
        let literals ← match members.lookup "args" with
          | some literals => itemsOfJson? literals
          | none => some []
        return .call method (literals.map .literal)
    | none =>
      match members.lookup "throw", members.lookup "main" with
      | some value, _ => (Literal.ofJson? value).map .throws
      | none, some body => (Body.ofJson? body).map .main
      | none, none => none
  | _ => none

/-- The script that a tree describes. -/
def statementsOfJson? : Json → Option (List Statement)
  | .array items => items.mapM Statement.ofJson?
  | _ => none

/-- The script of a text that stops where no statement can go on. -/
def stopsAt (complaint : String) : List Statement := [.throws (.error (.string complaint))]

/-- The script of a file. A list of statements is one; members in braces are a block, which stops
at the colon behind the first name; any other tree is a value that is not used. -/
def statementsOfText (text : String) : List Statement :=
  match Json.parse text with
  | .ok (.object (_ :: _)) => stopsAt "expecting ';'"
  | .ok tree => (statementsOfJson? tree).getD []
  | .error fault => stopsAt fault.text

end Interchange.Script
