import Interchange.Json.Fault
import Interchange.Text.Hex
import Interchange.Text.Utf8

/-!
# The lexemes of JSON

Each reader takes the rest of a text and returns what it read with what is left, or stops. A stop
says how many bytes were left, which fixes the place once the whole text is known: `stopHere` is
the place of the next byte, `stopNext` the place after it, which was looked at, and `stopPast` the
same place when the byte was taken before it was judged.
-/

namespace Interchange.Json

/-- Where and why reading ended without a result. -/
structure Stop where
  complaint : Complaint
  /-- How many bytes lie behind the place of the complaint. -/
  bytesLeft : Nat
  /-- How many bytes have not been taken. -/
  bytesUntaken : Nat
deriving DecidableEq, Repr

/-- A reader from a list of characters. -/
abbrev Reader (α : Type) := List Char → Except Stop (α × List Char)

def stopHere {α : Type} (complaint : Complaint) (rest : List Char) : Except Stop α :=
  .error ⟨complaint, Text.byteCount rest, Text.byteCount rest⟩

def stopNext {α : Type} (complaint : Complaint) (rest : List Char) : Except Stop α :=
  .error ⟨complaint, Text.byteCount rest - 1, Text.byteCount rest⟩

def stopPast {α : Type} (complaint : Complaint) (rest : List Char) : Except Stop α :=
  .error ⟨complaint, Text.byteCount rest - 1, Text.byteCount rest - 1⟩

/-- The fault of a stop in a text. -/
def Stop.inText (stop : Stop) (text : List Char) : Fault :=
  ⟨stop.complaint, some (Position.ofOffset text (Text.byteCount text - stop.bytesLeft))⟩

def isBlank (c : Char) : Bool := c = ' ' || c = '\n' || c = '\t' || c = '\r'

def skipBlanks (s : List Char) : List Char := s.dropWhile isBlank

/-- The rest of a word such as `null`, whose first letter has been taken. -/
def word : List Char → List Char → Except Stop (List Char)
  | [], rest => .ok rest
  | _ :: _, [] => stopHere .endInValue []
  | expected :: more, c :: rest =>
    if c = expected then word more rest else stopNext .expectedWord (c :: rest)

/-! ## Numbers -/

def takeDigits (s : List Char) : List Char × List Char :=
  (s.takeWhile Char.isDigit, s.dropWhile Char.isDigit)

/-- The digits before the point: a single zero, or digits that do not begin with one. -/
def wholeDigits : Reader (List Char)
  | [] => stopHere .endInValue []
  | '0' :: rest =>
    match rest with
    | c :: _ => if c.isDigit then stopNext .invalidNumber rest else .ok (['0'], rest)
    | [] => .ok (['0'], [])
  | c :: rest =>
    if c.isDigit then .ok (c :: (takeDigits rest).1, (takeDigits rest).2)
    else stopPast .invalidNumber (c :: rest)

/-- The digits after a point, which may not be missing. -/
def fractionDigits : Reader (List Char) := fun rest =>
  match takeDigits rest with
  | ([], []) => stopHere .endInValue []
  | ([], rest) => stopNext .invalidNumber rest
  | (digits, rest) => .ok (digits, rest)

/-- The sign and the digits after the mark of an exponent. -/
def exponentPart : Reader (Bool × List Char) := fun rest =>
  let (negative, rest) := match rest with
    | '+' :: rest => (false, rest)
    | '-' :: rest => (true, rest)
    | rest => (false, rest)
  match rest with
  | [] => stopHere .endInValue []
  | c :: more =>
    if c.isDigit then .ok ((negative, c :: (takeDigits more).1), (takeDigits more).2)
    else stopPast .invalidNumber (c :: more)

def isExponentMark (c : Char) : Bool := c = 'e' || c = 'E'

/-- An exponent, if the next character is its mark. -/
def optionalExponent : Reader (Option (Bool × List Char))
  | [] => .ok (none, [])
  | c :: rest =>
    if isExponentMark c then do
      let (part, rest) ← exponentPart rest
      return (some part, rest)
    else .ok (none, c :: rest)

/-- A fraction, if the next character is the point. -/
def optionalFraction : Reader (Option (List Char))
  | '.' :: rest => do
    let (digits, rest) ← fractionDigits rest
    return (some digits, rest)
  | rest => .ok (none, rest)

/-- A number after its sign. -/
def numeral (negative : Bool) : Reader Numeral := fun rest => do
  let (whole, rest) ← wholeDigits rest
  let (fraction, rest) ← optionalFraction rest
  let (exponent, rest) ← optionalExponent rest
  return (⟨negative, whole, fraction, exponent⟩, rest)

/-- The number that is the whole of a text. Where something is left that no number goes on with,
that is what is wrong, whatever was wrong before. -/
def Numeral.parse (text : String) : Except Fault Numeral :=
  let chars := text.toList
  let read : Except Stop (Numeral × List Char) :=
    match chars with
    | [] => stopHere .endInValue []
    | '-' :: rest => numeral true rest
    | c :: rest =>
      if c.isDigit then numeral false (c :: rest) else stopNext .invalidNumber (c :: rest)
  let settled : Except Stop Numeral :=
    match read with
    | .ok (n, []) => .ok n
    | .ok (_, rest) => stopNext .invalidNumber rest
    | .error stop =>
      if stop.bytesUntaken = 0 then .error stop
      else .error ⟨.invalidNumber, stop.bytesUntaken - 1, stop.bytesUntaken⟩
  settled.mapError (·.inText chars)

/-! ## Strings -/

/-- The next four characters as hexadecimal digits. -/
def hexDigits? : List Char → Option (Nat × List Char)
  | a :: b :: c :: d :: rest => do
    let a ← Text.hexValue? a
    let b ← Text.hexValue? b
    let c ← Text.hexValue? c
    let d ← Text.hexValue? d
    return (((a * 16 + b) * 16 + c) * 16 + d, rest)
  | _ => none

/-- The four hexadecimal digits after `\u`. Four bytes are taken before they are judged. -/
def hexEscape : Reader Nat := fun rest =>
  match hexDigits? rest with
  | some found => .ok found
  | none =>
    if Text.byteCount rest < 4 then stopHere .endInString []
    else .error ⟨.invalidEscape, Text.byteCount rest - 4, Text.byteCount rest - 4⟩

/-- The second half of a pair of escapes, after a leading surrogate. -/
def trailingSurrogate : Reader Nat
  | [] => stopHere .endInString []
  | '\\' :: [] => stopHere .endInString []
  | '\\' :: 'u' :: rest => do
    let (low, rest) ← hexEscape rest
    if 0xDC00 ≤ low ∧ low ≤ 0xDFFF then return (low, rest)
    else stopHere .loneSurrogate rest
  | '\\' :: rest => stopNext .unfinishedSurrogate rest
  | rest => stopNext .unfinishedSurrogate rest

/-- The character of an escape `\u`, after the `u`. -/
def codePointEscape : Reader Char := fun rest => do
  let (high, rest) ← hexEscape rest
  if 0xDC00 ≤ high ∧ high ≤ 0xDFFF then stopHere .loneSurrogate rest
  else if 0xD800 ≤ high ∧ high ≤ 0xDBFF then
    let (low, rest) ← trailingSurrogate rest
    return (Char.ofNat (0x10000 + (high - 0xD800) * 0x400 + (low - 0xDC00)), rest)
  else return (Char.ofNat high, rest)

/-- What a letter after a backslash stands for. -/
def escapeLetter? : Char → Option Char
  | '"' => some '"'
  | '\\' => some '\\'
  | '/' => some '/'
  | 'b' => some '\x08'
  | 'f' => some '\x0c'
  | 'n' => some '\n'
  | 'r' => some '\r'
  | 't' => some '\t'
  | _ => none

/-- The character of an escape, after the backslash. -/
def escape : Reader Char
  | [] => stopHere .endInString []
  | 'u' :: rest => codePointEscape rest
  | c :: rest =>
    match escapeLetter? c with
    | some plain => .ok (plain, rest)
    | none => stopNext .invalidEscape (c :: rest)

/-- The characters of a string up to its closing quote. The fuel is the length of the rest: each
step takes at least one character. -/
def stringBodyChars : Nat → Reader (List Char)
  | 0, rest => stopHere .endInString rest
  | _ + 1, [] => stopHere .endInString []
  | _ + 1, '"' :: rest => .ok ([], rest)
  | fuel + 1, '\\' :: rest => do
    let (c, rest) ← escape rest
    let (cs, rest) ← stringBodyChars fuel rest
    return (c :: cs, rest)
  | fuel + 1, c :: rest =>
    if c.toNat < 0x20 then stopNext .controlCharacter (c :: rest)
    else do
      let (cs, rest) ← stringBodyChars fuel rest
      return (c :: cs, rest)

/-- A string after its opening quote. -/
def stringBody : Reader String := fun rest => do
  let (cs, rest) ← stringBodyChars (rest.length + 1) rest
  return (String.ofList cs, rest)

end Interchange.Json
