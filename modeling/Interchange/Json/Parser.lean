import Interchange.Json.Lexeme

/-!
# Reading JSON

`Json.parse` reads a text as one value. Containers may be nested 127 deep. Names come out sorted,
and the last member of a repeated name counts. An object whose first member has a certain name of
its own is no object but stands for a number, digit for digit.

The readers of lists and objects take the reader of their elements as an argument, so that the
nesting is a recursion on the depth that is left.
-/

namespace Interchange.Json

/-- The elements of a list up to its closing bracket; `first` says that no element has been read.
The fuel is the length of the rest: each element takes at least one character. -/
def listItems {α : Type} (item : Reader α) : Nat → Bool → Reader (List α)
  | 0, _, rest => stopNext .endInList rest
  | fuel + 1, first, rest =>
    match skipBlanks rest with
    | [] => stopHere .endInList []
    | ']' :: rest => .ok ([], rest)
    | c :: rest =>
      if first then do
        let (value, rest) ← item (c :: rest)
        let (values, rest) ← listItems item fuel false rest
        return (value :: values, rest)
      else if c = ',' then
        match skipBlanks rest with
        | [] => stopHere .endInValue []
        | ']' :: rest => stopNext .trailingComma (']' :: rest)
        | rest => do
          let (value, rest) ← item rest
          let (values, rest) ← listItems item fuel false rest
          return (value :: values, rest)
      else stopNext .expectedListCommaOrEnd (c :: rest)

/-- The colon after a name. -/
def colon (rest : List Char) : Except Stop (List Char) :=
  match skipBlanks rest with
  | [] => stopHere .endInObject []
  | ':' :: rest => .ok rest
  | rest => stopNext .expectedColon rest

/-- A member after the opening quote of its name. -/
def member {α : Type} (item : Reader α) : Reader (String × α) := fun rest => do
  let (name, rest) ← stringBody rest
  let rest ← colon rest
  let (value, rest) ← item rest
  return ((name, value), rest)

/-! ## Refusals -/

/-- What a numeral is found to be: an integer of 64 bits, or just a number, as the negative zero
is. -/
def Numeral.found (n : Numeral) : Found :=
  match n.number with
  | .integer i =>
    if n.negative then if Binary64.minInt64 ≤ i ∧ i ≠ 0 then .integer i else .number
    else if i < 18446744073709551616 then .integer i else .number
  | _ => .number

/-- The refusal of the value at hand. -/
def mismatch {α : Type} (wanted : String) : Reader α
  | [] => stopHere .endInValue []
  | 'n' :: rest => do stopHere (.invalidType .null wanted) (← word ['u', 'l', 'l'] rest)
  | 't' :: rest => do
    stopHere (.invalidType (.boolean true) wanted) (← word ['r', 'u', 'e'] rest)
  | 'f' :: rest => do
    stopHere (.invalidType (.boolean false) wanted) (← word ['a', 'l', 's', 'e'] rest)
  | '-' :: rest => do
    let (n, rest) ← numeral true rest
    stopHere (.invalidType n.found wanted) rest
  | '"' :: rest => do
    let (s, rest) ← stringBody rest
    stopHere (.invalidType (.string s) wanted) rest
  | '[' :: rest => stopHere (.invalidType .sequence wanted) ('[' :: rest)
  | '\x7b' :: rest => stopHere (.invalidType .map wanted) ('\x7b' :: rest)
  | c :: rest =>
    if c.isDigit then do
      let (n, rest) ← numeral false (c :: rest)
      stopHere (.invalidType n.found wanted) rest
    else stopNext .expectedValue (c :: rest)

/-- A string. -/
def receiveText (wanted : String) : Reader String := fun rest =>
  match skipBlanks rest with
  | '"' :: rest => stringBody rest
  | rest => mismatch wanted rest

/-! ## Objects -/

/-- An object whose first member has this name stands for the number that the member spells. -/
def numberName : String := "$serde_json::private::Number"

/-- What is wanted behind that name. -/
def numberText : String := "string containing a number"

/-- What follows the name of the first member if the object stands for a number. -/
def numberMember? (rest : List Char) : Option (List Char) :=
  match skipBlanks rest with
  | '"' :: rest =>
    match stringBody rest with
    | .ok (name, rest) => if name = numberName then some rest else none
    | .error _ => none
  | _ => none

/-- The number of an object, after the name of its only member. -/
def numberMember : Reader Numeral := fun rest => do
  let (text, rest) ← receiveText numberText (← colon rest)
  match Numeral.parse text with
  | .error fault => stopHere (.inNumber fault.text) rest
  | .ok n =>
    match skipBlanks rest with
    | [] => stopHere .endInObject []
    | '\x7d' :: rest => return (n, rest)
    | ',' :: rest => stopNext .trailingComma (',' :: rest)
    | rest => stopNext .trailingCharacters rest

/-- The members of an object up to its closing brace; `first` says that none has been read. -/
def objectMembers {α : Type} (item : Reader α) : Nat → Bool → Reader (List (String × α))
  | 0, _, rest => stopNext .endInObject rest
  | fuel + 1, first, rest =>
    match skipBlanks rest with
    | [] => stopHere .endInObject []
    | '\x7d' :: rest => .ok ([], rest)
    | c :: rest =>
      if first then
        if c = '"' then do
          let (entry, rest) ← member item rest
          let (entries, rest) ← objectMembers item fuel false rest
          return (entry :: entries, rest)
        else stopNext .keyMustBeString (c :: rest)
      else if c = ',' then
        match skipBlanks rest with
        | [] => stopHere .endInValue []
        | '"' :: rest => do
          let (entry, rest) ← member item rest
          let (entries, rest) ← objectMembers item fuel false rest
          return (entry :: entries, rest)
        | '\x7d' :: rest => stopNext .trailingComma ('\x7d' :: rest)
        | rest => stopNext .keyMustBeString rest
      else stopNext .expectedObjectCommaOrEnd (c :: rest)

/-- One value, with the reader of the elements of a container if one may be opened here. -/
def node (item : Option (Reader Json)) : Reader Json := fun rest =>
  match skipBlanks rest with
  | [] => stopHere .endInValue []
  | 'n' :: rest => do return (.null, ← word ['u', 'l', 'l'] rest)
  | 't' :: rest => do return (.bool true, ← word ['r', 'u', 'e'] rest)
  | 'f' :: rest => do return (.bool false, ← word ['a', 'l', 's', 'e'] rest)
  | '-' :: rest => do
    let (n, rest) ← numeral true rest
    return (.number n.number, rest)
  | '"' :: rest => do
    let (s, rest) ← stringBody rest
    return (.string s, rest)
  | '[' :: rest =>
    match item with
    | none => stopNext .depthLimit ('[' :: rest)
    | some item => do
      let (items, rest) ← listItems item (rest.length + 1) true rest
      return (.array items, rest)
  | '\x7b' :: rest =>
    match item with
    | none => stopNext .depthLimit ('\x7b' :: rest)
    | some item =>
      match numberMember? rest with
      | some rest => do
        let (n, rest) ← numberMember rest
        return (.number n.number, rest)
      | none => do
        let (members, rest) ← objectMembers item (rest.length + 1) true rest
        return (.object (TextMap.ofList members), rest)
  | c :: rest =>
    if c.isDigit then do
      let (n, rest) ← numeral false (c :: rest)
      return (.number n.number, rest)
    else stopNext .expectedValue (c :: rest)

/-- One value whose containers are nested at most `depth` deep. -/
def value : Nat → Reader Json
  | 0 => node none
  | depth + 1 => node (some (value depth))

/-- Containers may be nested this deep. -/
def maxDepth : Nat := 127

/-- Reads to the end of the text, where only blanks may follow the value. -/
def whole {α : Type} (reader : Reader α) (text : List Char) : Except Fault α :=
  let result : Except Stop α := do
    let (found, rest) ← reader text
    match skipBlanks rest with
    | [] => return found
    | rest => stopNext .trailingCharacters rest
  result.mapError (·.inText text)

/-- The tree of a text. -/
def parse (text : String) : Except Fault Json := whole (value maxDepth) text.toList

end Interchange.Json
