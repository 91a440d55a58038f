import Interchange.Pattern.Cursor
import Interchange.Text.Hex

/-!
# Escapes

What a backslash begins: a character, by its own sign, by a letter or by its number; a class of
characters; an edge of the text or of a word.

A pattern comes to its reader without a closing brace, so whatever begins with an opening brace is
found unclosed, or wrong before that.
-/

namespace Interchange.Pattern.Reader

/-- May a character be escaped for its own sake? -/
def isEscapable (c : Char) : Bool := c.val < 128 && !c.isAlphanum && c != '<' && c != '>'

/-- The letters for control characters. -/
def controlLetters : List (Char × Char) :=
  [('a', '\x07'), ('f', '\x0c'), ('t', '\t'), ('n', '\n'), ('r', '\r'), ('v', '\x0b')]

def isHexDigit (c : Char) : Bool := c.isDigit || ('a' ≤ c && c ≤ 'f') || ('A' ≤ c && c ≤ 'F')

/-- How many digits a letter is followed by. -/
def hexWidth (letter : Char) : Nat :=
  if letter = 'x' then 2 else if letter = 'u' then 4 else 8

/-- Exactly so many hexadecimal digits. -/
def hexDigits : Nat → Reader (List Char)
  | 0 => return []
  | n + 1 => do
    match ← next? with
    | none => failHere .escapeAtEnd
    | some c =>
      if isHexDigit c then
        let _ ← proceed
        return c :: (← hexDigits n)
      else failChar .hexDigit

/-- A character by its number, from the letter on. -/
def hexEscape (start : Position) (letter : Char) : Reader Node := do
  match ← proceed with
  | none => failHere .escapeAtEnd
  | some '{' =>
    let brace ← here
    let _ ← proceed
    let _ ← takeWhile isHexDigit
    match ← next? with
    | none => failFrom .escapeAtEnd brace
    | some _ => failChar .hexDigit
  | some _ =>
    let digitsStart ← here
    let code := Text.hexNumber (← hexDigits (hexWidth letter))
    if code.isValidChar then
      return .literal ⟨Char.ofNat code, ← spanFrom start, letter = 'x'⟩
    else failFrom .hexValue digitsStart

/-- The characters with a property, from the letter on. -/
def propertyEscape (start : Position) : Reader Node := do
  match ← proceed with
  | none => failHere .escapeAtEnd
  | some '{' =>
    drop (← get).rest.length
    failHere .escapeAtEnd
  | some '\\' => failChar .propertyInvalid
  | some _ =>
    let _ ← proceed
    return .set (.property (← spanFrom start))

/-- The edge of a word, from behind its letter on. In braces stands what kind of edge it is, unless
they begin otherwise and so count how often. -/
def wordEdge (start : Position) : Reader Node := do
  let span ← spanFrom start
  let before ← get
  let isKind (c : Char) : Bool := c.isAlpha || c = '-'
  if before.rest.head? = some '{' then
    match ← proceed with
    | none => failFrom .wordEdgeAtEnd start
    | some c =>
      if isKind c then
        let _ ← takeWhile isKind
        failFrom .wordEdgeUnclosed before.position
      else set before
  return .wordEdge span

/-- What a backslash begins. -/
def escape : Reader Node := do
  let start ← here
  match ← advance with
  | none => failFrom .escapeAtEnd start
  | some c =>
    if c.isDigit then fail .backreference ⟨start, (← charSpan).past⟩
    else if c = 'x' ∨ c = 'u' ∨ c = 'U' then hexEscape start c
    else if c = 'p' ∨ c = 'P' then propertyEscape start
    else
      drop 1
      let span ← spanFrom start
      if ['d', 's', 'w'].contains c then return .set (.shorthand span false)
      else if ['D', 'S', 'W'].contains c then return .set (.shorthand span true)
      else if isEscapable c then return .literal { char := c, span }
      else if c = 'A' ∨ c = 'z' then return .edge span
      else if c = 'b' then wordEdge start
      else if c = 'B' ∨ c = '<' ∨ c = '>' then return .wordEdge span
      else
        match controlLetters.lookup c with
        | some char => return .literal { char, span }
        | none => fail .escapeUnknown span

end Interchange.Pattern.Reader
