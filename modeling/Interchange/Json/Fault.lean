import Interchange.Json
import Interchange.Text.Quoted

/-!
# What can be wrong with a JSON text or tree

A `Complaint` is a cause, a `Fault` a cause with the place where it was noticed, if there is one.
-/

namespace Interchange.Json

/-- What was found where something else was wanted. -/
inductive Found where
  | null
  | boolean (value : Bool)
  | integer (value : Int)
  | float (value : Binary64)
  /-- A number that is not looked at more closely. -/
  | number
  | string (value : String)
  | sequence
  | map
deriving DecidableEq, Repr

/-- The words for what was found. -/
def Found.text : Found → String
  | null => "null"
  | boolean value => s!"boolean `{value}`"
  | integer value => s!"integer `{value}`"
  | float value => "floating point `" ++ floatLayout.write value ++ "`"
  | number => "number"
  | string value => "string " ++ Text.quote value
  | sequence => "sequence"
  | map => "map"

inductive Complaint where
  | endInValue
  | endInList
  | endInObject
  | endInString
  | expectedColon
  | expectedListCommaOrEnd
  | expectedObjectCommaOrEnd
  | expectedWord
  | expectedValue
  | invalidEscape
  | invalidNumber
  | numberOutOfRange
  | loneSurrogate
  | unfinishedSurrogate
  | controlCharacter
  | keyMustBeString
  | trailingComma
  | trailingCharacters
  | depthLimit
  | invalidType (found : Found) (wanted : String)
  | invalidValue (found : Found) (wanted : String)
  | invalidLength (length : Nat) (wanted : String)
  | missingField (name : String)
  | duplicateField (name : String)
  /-- A native handle of this type has no JSON form. -/
  | native (typeName : String)
  /-- What is wrong with a string that should be a number, with its place in the string. -/
  | inNumber (text : String)
deriving DecidableEq, Repr

namespace Complaint

def text : Complaint → String
  | endInValue => "EOF while parsing a value"
  | endInList => "EOF while parsing a list"
  | endInObject => "EOF while parsing an object"
  | endInString => "EOF while parsing a string"
  | expectedColon => "expected `:`"
  | expectedListCommaOrEnd => "expected `,` or `]`"
  | expectedObjectCommaOrEnd => "expected `,` or `\x7d`"
  | expectedWord => "expected ident"
  | expectedValue => "expected value"
  | invalidEscape => "invalid escape"
  | invalidNumber => "invalid number"
  | numberOutOfRange => "number out of range"
  | loneSurrogate => "lone leading surrogate in hex escape"
  | unfinishedSurrogate => "unexpected end of hex escape"
  | controlCharacter => "control character (\\u0000-\\u001F) found while parsing a string"
  | keyMustBeString => "key must be a string"
  | trailingComma => "trailing comma"
  | trailingCharacters => "trailing characters"
  | depthLimit => "recursion limit exceeded"
  | invalidType found wanted => "invalid type: " ++ found.text ++ ", expected " ++ wanted
  | invalidValue found wanted => "invalid value: " ++ found.text ++ ", expected " ++ wanted
  | invalidLength length wanted => s!"invalid length {length}, expected " ++ wanted
  | missingField name => s!"missing field `{name}`"
  | duplicateField name => s!"duplicate field `{name}`"
  | native typeName => "cannot serialize native value of type " ++ typeName
  | inNumber text => text

end Complaint

/-- A place in a text: lines count from one, columns count the bytes before it on the line. -/
structure Position where
  line : Nat
  column : Nat
deriving DecidableEq, Repr

namespace Position

/-- The place reached from `start` after a number of bytes. -/
def advance (start : Position) : List Char → Nat → Position
  | _, 0 => start
  | [], _ => start
  | c :: rest, bytes@(_ + 1) =>
    if bytes < c.utf8Size then ⟨start.line, start.column + bytes⟩
    else if c = '\n' then advance ⟨start.line + 1, 0⟩ rest (bytes - 1)
    else advance ⟨start.line, start.column + c.utf8Size⟩ rest (bytes - c.utf8Size)

/-- The place after a number of bytes of a text. -/
def ofOffset (text : List Char) (bytes : Nat) : Position := advance ⟨1, 0⟩ text bytes

def lineMark : List Char := " at line ".toList

def columnMark : List Char := " column ".toList

/-- The words that name a place. -/
def text (p : Position) : String := s!" at line {p.line} column {p.column}"

/-- A number of 64 bits that digits spell. -/
def count? (digits : List Char) : Option Nat :=
  if digits.isEmpty || !digits.all Char.isDigit then none
  else
    let n := naturalOf digits
    if n < 18446744073709551616 then some n else none

/-- The place that the characters behind a line mark name, to the last of them. -/
def ofTail? (tail : List Char) : Option Position := do
  let line ← count? (tail.takeWhile Char.isDigit)
  let rest := tail.dropWhile Char.isDigit
  guard (columnMark.isPrefixOf rest)
  return ⟨line, ← count? (rest.drop columnMark.length)⟩

/-- The characters before the last line mark and those behind it. -/
def splitAtMark : List Char → Option (List Char × List Char)
  | [] => none
  | c :: rest =>
    match splitAtMark rest with
    | some (before, tail) => some (c :: before, tail)
    | none =>
      if lineMark.isPrefixOf (c :: rest) then some ([], (c :: rest).drop lineMark.length) else none

/-- A text that ends in the words for a place, without them, and that place. -/
def detach? (text : String) : Option (String × Position) := do
  let (before, tail) ← splitAtMark text.toList
  return (String.ofList before, ← ofTail? tail)

end Position

structure Fault where
  complaint : Complaint
  position : Option Position
deriving DecidableEq, Repr

namespace Fault

/-- A complaint with a place after it. -/
def placed (words : String) : Option Position → String
  | some p => words ++ p.text
  | none => words

/-- The words for a fault. A complaint whose words end in a place stands there and nowhere else;
the line zero is no place. -/
def text (fault : Fault) : String :=
  match Position.detach? fault.complaint.text with
  | some (words, ⟨0, _⟩) => placed words fault.position
  | some (words, p) => placed words (some p)
  | none => placed fault.complaint.text fault.position

/-- A complaint about a tree, which has no place. -/
def unplaced (complaint : Complaint) : Fault := ⟨complaint, none⟩

end Fault
end Interchange.Json
