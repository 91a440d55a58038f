import Interchange.Json
import Interchange.Text.Hex

/-!
# Writing JSON

`Json.compact` writes without blanks, `Json.pretty` one element a line with a given indentation.
In strings only the quote, the backslash and control characters are escaped.
-/

namespace Interchange.Json

/-- The written form of one character of a string. -/
def stringChar (c : Char) : List Char :=
  if c = '"' then ['\\', '"']
  else if c = '\\' then ['\\', '\\']
  else if c = '\x08' then ['\\', 'b']
  else if c = '\x0c' then ['\\', 'f']
  else if c = '\n' then ['\\', 'n']
  else if c = '\r' then ['\\', 'r']
  else if c = '\t' then ['\\', 't']
  else if c.toNat < 0x20 then
    ['\\', 'u'] ++ Text.hexOfNumber 4 c.toNat
  else [c]

/-- A string in its quotes. -/
def stringChars (s : String) : List Char :=
  '"' :: s.toList.flatMap stringChar ++ ['"']

mutual

def compactChars : Json → List Char
  | .null => ['n', 'u', 'l', 'l']
  | .bool true => ['t', 'r', 'u', 'e']
  | .bool false => ['f', 'a', 'l', 's', 'e']
  | .number n => n.chars
  | .string s => stringChars s
  | .array [] => ['[', ']']
  | .array (item :: rest) => '[' :: compactChars item ++ compactItems rest
  | .object [] => ['\x7b', '\x7d']
  | .object ((name, value) :: rest) =>
    '\x7b' :: stringChars name ++ ':' :: compactChars value ++ compactMembers rest

/-- The elements after the first, and the closing bracket. -/
def compactItems : List Json → List Char
  | [] => [']']
  | item :: rest => ',' :: compactChars item ++ compactItems rest

/-- The members after the first, and the closing brace. -/
def compactMembers : List (String × Json) → List Char
  | [] => ['\x7d']
  | (name, value) :: rest =>
    ',' :: stringChars name ++ ':' :: compactChars value ++ compactMembers rest

end

/-- The text without blanks. -/
def compact (j : Json) : String := String.ofList (compactChars j)

/-- A new line, indented to a level. -/
def lineAt (indent level : Nat) : List Char := '\n' :: List.replicate (indent * level) ' '

mutual

def prettyChars (indent level : Nat) : Json → List Char
  | .null => ['n', 'u', 'l', 'l']
  | .bool true => ['t', 'r', 'u', 'e']
  | .bool false => ['f', 'a', 'l', 's', 'e']
  | .number n => n.chars
  | .string s => stringChars s
  | .array [] => ['[', ']']
  | .array (item :: rest) =>
    '[' :: lineAt indent (level + 1) ++ prettyChars indent (level + 1) item ++
      prettyItems indent level rest
  | .object [] => ['\x7b', '\x7d']
  | .object ((name, value) :: rest) =>
    '\x7b' :: lineAt indent (level + 1) ++ stringChars name ++ ':' :: ' ' ::
      prettyChars indent (level + 1) value ++ prettyMembers indent level rest

/-- The elements after the first, and the closing bracket of a container at this level. -/
def prettyItems (indent level : Nat) : List Json → List Char
  | [] => lineAt indent level ++ [']']
  | item :: rest =>
    ',' :: lineAt indent (level + 1) ++ prettyChars indent (level + 1) item ++
      prettyItems indent level rest

/-- The members after the first, and the closing brace of a container at this level. -/
def prettyMembers (indent level : Nat) : List (String × Json) → List Char
  | [] => lineAt indent level ++ ['\x7d']
  | (name, value) :: rest =>
    ',' :: lineAt indent (level + 1) ++ stringChars name ++ ':' :: ' ' ::
      prettyChars indent (level + 1) value ++ prettyMembers indent level rest

end

/-- The text with one element a line and `indent` spaces a level. -/
def pretty (indent : Nat) (j : Json) : String := String.ofList (prettyChars indent 0 j)

end Interchange.Json
