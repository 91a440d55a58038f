import Interchange.Json.Lexeme

/-!
# Skipping values

A member that a receiver does not know is passed over by a reader of its own. It takes containers
at any depth and keeps only the brackets that are open. What it notices, it notices in places and
words of its own: a control character where it stands, a comma before a closing bracket as a
missing value or name.
-/

namespace Interchange.Json

/-- A container that is open. -/
inductive Frame where
  | list
  | object
deriving DecidableEq, Repr

namespace Skip

/-- The digits at the head, passed over. -/
def digits (rest : List Char) : List Char := rest.dropWhile Char.isDigit

/-- An exponent after its mark. -/
def exponentPart (rest : List Char) : Except Stop (List Char) :=
  let rest := match rest with
    | '+' :: rest => rest
    | '-' :: rest => rest
    | rest => rest
  match rest with
  | [] => stopHere .invalidNumber []
  | c :: rest => if c.isDigit then .ok (digits rest) else stopNext .invalidNumber (c :: rest)

/-- An exponent, if its mark is next. -/
def optionalExponent : List Char → Except Stop (List Char)
  | [] => .ok []
  | c :: rest => if isExponentMark c then exponentPart rest else .ok (c :: rest)

/-- A fraction after its point, and an exponent. -/
def fraction : List Char → Except Stop (List Char)
  | [] => stopHere .invalidNumber []
  | c :: rest =>
    if c.isDigit then optionalExponent (digits rest) else stopNext .invalidNumber (c :: rest)

/-- A fraction and an exponent, as far as there are any. -/
def tail : List Char → Except Stop (List Char)
  | '.' :: rest => fraction rest
  | rest => optionalExponent rest

/-- A number after its sign. -/
def number : List Char → Except Stop (List Char)
  | [] => stopHere .invalidNumber []
  | '0' :: rest =>
    match rest with
    | c :: _ => if c.isDigit then stopNext .invalidNumber rest else tail rest
    | [] => .ok []
  | c :: rest => if c.isDigit then tail (digits rest) else stopNext .invalidNumber (c :: rest)

/-- An escape after its backslash. -/
def escape : List Char → Except Stop (List Char)
  | [] => stopHere .endInString []
  | 'u' :: rest => do
    let (_, rest) ← hexEscape rest
    return rest
  | c :: rest =>
    match escapeLetter? c with
    | some _ => .ok rest
    | none => stopNext .invalidEscape (c :: rest)

/-- A string after its opening quote. The fuel is above the length of the rest: each step takes at
least one character. -/
def string : Nat → List Char → Except Stop (List Char)
  | 0, rest => stopHere .endInString rest
  | _ + 1, [] => stopHere .endInString []
  | _ + 1, '"' :: rest => .ok rest
  | fuel + 1, '\\' :: rest => do string fuel (← escape rest)
  | fuel + 1, c :: rest =>
    if c.toNat < 0x20 then stopHere .controlCharacter (c :: rest) else string fuel rest

/-- A value that is no container, whose first character is there. -/
def scalar : List Char → Except Stop (List Char)
  | [] => stopHere .endInValue []
  | 'n' :: rest => word ['u', 'l', 'l'] rest
  | 't' :: rest => word ['r', 'u', 'e'] rest
  | 'f' :: rest => word ['a', 'l', 's', 'e'] rest
  | '-' :: rest => number rest
  | '"' :: rest => string (rest.length + 1) rest
  | c :: rest => if c.isDigit then number (c :: rest) else stopNext .expectedValue (c :: rest)

/-- The name of a member and its colon. -/
def name (rest : List Char) : Except Stop (List Char) :=
  match skipBlanks rest with
  | [] => stopHere .endInObject []
  | '"' :: rest => do
    let rest ← string (rest.length + 1) rest
    match skipBlanks rest with
    | [] => stopHere .endInObject []
    | ':' :: rest => return rest
    | rest => stopNext .expectedColon rest
  | rest => stopNext .keyMustBeString rest

/-- What comes before the next value in a container: its name, in an object. -/
def before : Frame → List Char → Except Stop (List Char)
  | .list, rest => .ok rest
  | .object, rest => name rest

/-- Where skipping stands. -/
inductive State where
  /-- A value is next. -/
  | value
  /-- A container has just been opened. -/
  | opened
  /-- A value has just ended. -/
  | ended

/-- Does a character close a container? -/
def closes : Frame → Char → Bool
  | .list, c => c = ']'
  | .object, c => c = '\x7d'

/-- Inside a container: its end, or what comes before the next value. -/
def within (frame : Frame) (ended : Bool) (rest : List Char) :
    Except Stop (Bool × List Char) :=
  match skipBlanks rest with
  | [] => stopHere (match frame with | .list => .endInList | .object => .endInObject) []
  | c :: rest =>
    if closes frame c then .ok (true, rest)
    else if ended then
      if c = ',' then return (false, ← before frame rest)
      else
        stopNext (match frame with
          | .list => .expectedListCommaOrEnd
          | .object => .expectedObjectCommaOrEnd) (c :: rest)
    else return (false, ← before frame (c :: rest))

/-- Passes over what is left of a value inside open containers. Every two steps take at least one
character, so twice the length of the text is fuel enough. -/
def run : Nat → State → List Frame → List Char → Except Stop (List Char)
  | 0, _, _, rest => .ok rest
  | fuel + 1, .value, frames, rest =>
    match skipBlanks rest with
    | '[' :: rest => run fuel .opened (.list :: frames) rest
    | '\x7b' :: rest => run fuel .opened (.object :: frames) rest
    | rest => do run fuel .ended frames (← scalar rest)
  | _ + 1, _, [], rest => .ok rest
  | fuel + 1, state, frame :: outer, rest => do
    let ended := match state with
      | .ended => true
      | _ => false
    match ← within frame ended rest with
    | (true, rest) => run fuel .ended outer rest
    | (false, rest) => run fuel .value (frame :: outer) rest

end Skip

/-- Passes over a value. -/
def skipValue (rest : List Char) : Except Stop (List Char) :=
  Skip.run (2 * rest.length + 2) .value [] rest

end Interchange.Json
