/-!
# Patterns

The tree of a regular expression, in which every part knows where it stands in the text. A tree is
kept only to judge the expression, not to match with it, so it holds no more than what may be wrong
with a part: a class such as `\d` does not say which characters it has.
-/

namespace Interchange.Pattern

/-- A place in a text: a line and a column in it, both counted from one. -/
structure Position where
  line : Nat := 1
  column : Nat := 1
deriving DecidableEq, Repr

/-- The place behind a character. -/
def Position.after (p : Position) (c : Char) : Position :=
  if c = '\n' then ⟨p.line + 1, 1⟩ else ⟨p.line, p.column + 1⟩

/-- The part of a text from one place to before another. -/
structure Span where
  first : Position
  past : Position
deriving DecidableEq, Repr

/-- Nothing, at a place. -/
def Span.at (p : Position) : Span := ⟨p, p⟩

/-- A character that stands for itself, or is written as an escape. -/
structure Literal where
  char : Char
  span : Span
  /-- Two hexadecimal digits, which name a byte where characters are bytes. -/
  isByte : Bool := false
deriving DecidableEq, Repr

/-- The letters of flags, and the minus sign that turns off those behind it. -/
abbrev Flags := List (Char × Span)

/-- What flags say about a letter. -/
def Flags.state? (flags : Flags) (letter : Char) : Option Bool :=
  go true flags
where
  go (on : Bool) : Flags → Option Bool
    | [] => none
    | (c, _) :: rest => if c = letter then some on else go (on && c != '-') rest

/-- What stands in brackets. -/
inductive CharSet where
  | empty (span : Span)
  | literal (literal : Literal)
  | range (span : Span) (least greatest : Literal)
  /-- A named class of ASCII characters. -/
  | named (span : Span) (negated : Bool)
  /-- A class of one letter: digits, blanks or characters of words. -/
  | shorthand (span : Span) (negated : Bool)
  /-- The characters with a property. -/
  | property (span : Span)
  | bracketed (span : Span) (negated : Bool) (content : CharSet)
  | union (span : Span) (parts : List CharSet)
  /-- An intersection or a difference. -/
  | operation (span : Span) (left right : CharSet)

def CharSet.span : CharSet → Span
  | empty span => span
  | literal l => l.span
  | range span _ _ => span
  | named span _ => span
  | shorthand span _ => span
  | property span => span
  | bracketed span _ _ => span
  | union span _ => span
  | operation span _ _ => span

/-- A part of a pattern. -/
inductive Node where
  | empty (span : Span)
  /-- Flags for what follows in the same group. -/
  | flags (span : Span) (flags : Flags)
  | literal (literal : Literal)
  /-- Any character. -/
  | dot (span : Span)
  /-- The edge of a line or of the text. -/
  | edge (span : Span)
  /-- The edge of a word. -/
  | wordEdge (span : Span)
  | set (set : CharSet)
  | repetition (span : Span) (inner : Node)
  | group (span : Span) (flags : Flags) (inner : Node)
  | alternation (span : Span) (branches : List Node)
  | concat (span : Span) (parts : List Node)

def Node.span : Node → Span
  | empty span => span
  | flags span _ => span
  | literal l => l.span
  | dot span => span
  | edge span => span
  | wordEdge span => span
  | set s => s.span
  | repetition span _ => span
  | group span _ _ => span
  | alternation span _ => span
  | concat span _ => span

end Interchange.Pattern
