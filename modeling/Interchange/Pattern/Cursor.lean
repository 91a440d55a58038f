import Interchange.Pattern.Fault
import Interchange.Text.Blank

/-!
# Reading a pattern

How far a pattern has been read, and the steps that a reader is made of. Where patterns are spaced
out, blanks count for nothing and neither does the rest of a line behind a hash sign.
-/

namespace Interchange.Pattern

structure Cursor where
  rest : List Char
  position : Position := {}
  /-- Is the pattern spaced out here? -/
  spaced : Bool := false
  /-- The names of groups so far. -/
  names : List (String × Span) := []

namespace Cursor

/-- The cursor behind so many characters. -/
def drop (n : Nat) (cursor : Cursor) : Cursor :=
  { cursor with
    rest := cursor.rest.drop n
    position := (cursor.rest.take n).foldl Position.after cursor.position }

/-- How many characters are blanks or remarks. -/
def blankCount (inRemark : Bool) : List Char → Nat
  | [] => 0
  | c :: rest =>
    if inRemark then blankCount (c ≠ '\n') rest + 1
    else if Text.isBlank c then blankCount false rest + 1
    else if c = '#' then blankCount true rest + 1
    else 0

/-- The cursor behind the blanks that do not count. -/
def skipBlanks (cursor : Cursor) : Cursor :=
  if cursor.spaced then cursor.drop (blankCount false cursor.rest) else cursor

/-- The character behind the next one. Where the pattern is spaced out, blanks are passed over to
find it, and one hash sign. -/
def second? (cursor : Cursor) : Option Char :=
  let behind := cursor.rest.tail
  let found := match behind.dropWhile Text.isBlank with
    | '#' :: remark => (remark.dropWhile Text.isBlank).head?
    | others => others.head?
  if cursor.spaced then found <|> behind.head? else behind.head?

end Cursor

abbrev Reader := StateT Cursor (Except Fault)

namespace Reader

def here : Reader Position := return (← get).position

def next? : Reader (Option Char) := return (← get).rest.head?

def skipBlanks : Reader Unit := modify Cursor.skipBlanks

def drop (n : Nat) : Reader Unit := modify (Cursor.drop n)

/-- Passes the next character and answers the one behind it. -/
def advance : Reader (Option Char) := do
  drop 1
  next?

/-- Passes the next character and blanks, and answers the one behind them. -/
def proceed : Reader (Option Char) := do
  drop 1
  skipBlanks
  next?

/-- The part from a place to here. -/
def spanFrom (start : Position) : Reader Span := return ⟨start, ← here⟩

/-- The next character as a part. -/
def charSpan : Reader Span := do
  let cursor ← get
  return ⟨cursor.position, (cursor.drop 1).position⟩

def fail {α : Type} (complaint : Complaint) (span : Span) : Reader α := throw { complaint, span }

/-- Complains about the place. -/
def failHere {α : Type} (complaint : Complaint) : Reader α := do
  fail complaint (Span.at (← here))

/-- Complains about the next character. -/
def failChar {α : Type} (complaint : Complaint) : Reader α := do
  fail complaint (← charSpan)

/-- Complains about the part from a place to here. -/
def failFrom {α : Type} (complaint : Complaint) (start : Position) : Reader α := do
  fail complaint (← spanFrom start)

/-- Passes a word, if it comes next. -/
def passes (word : String) : Reader Bool := do
  if word.toList.isPrefixOf (← get).rest then
    drop word.length
    return true
  else return false

/-- The next character, read as itself. -/
def literal (char : Char) : Reader Literal := do
  let span ← charSpan
  drop 1
  return { char, span }

def takeWhileWithin (accepts : Char → Bool) : Nat → Reader (List Char)
  | 0 => return []
  | fuel + 1 => do
    match ← next? with
    | some c =>
      if accepts c then
        let _ ← proceed
        return c :: (← takeWhileWithin accepts fuel)
      else return []
    | none => return []

/-- Passes characters of a class, and the blanks behind each. -/
def takeWhile (accepts : Char → Bool) : Reader (List Char) := do
  takeWhileWithin accepts (← get).rest.length

end Reader
end Interchange.Pattern
