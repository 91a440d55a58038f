import Interchange.Pattern

/-!
# What is wrong with a pattern

A fault is a complaint about a part of the text, and shows it: the text is written out with carets
under that part, and under an earlier one that it clashes with. A text of several lines is written
between rules with its lines numbered, and a part that goes over several lines is told in words.
-/

namespace Interchange.Pattern

inductive Complaint where
  | setEscape
  | setRange
  | setRangeEnd
  | setUnclosed
  | decimalInvalid
  | hexValue
  | hexDigit
  | escapeAtEnd
  | escapeUnknown
  | flagNegationDangling
  | flagRepeated
  | flagNegationRepeated
  | flagAtEnd
  | flagUnknown
  | nameRepeated
  | nameEmpty
  | nameCharacter
  | nameUnclosed
  | groupUnclosed
  | groupUnopened
  | nesting
  | countMissing
  | countUnclosed
  | repetitionMissing
  | wordEdgeUnclosed
  | wordEdgeAtEnd
  | propertyInvalid
  | backreference
  | lookAround
  | unicodeNotAllowed
  | invalidUtf8
  | propertyUnknown
  | shorthandUnknown
  | caseUnavailable
deriving DecidableEq, Repr

/-- How deep groups, classes and repetitions may stand in each other. -/
def maxNesting : Nat := 250

def Complaint.message : Complaint → String
  | setEscape => "invalid escape sequence found in character class"
  | setRange => "invalid character class range, the start must be <= the end"
  | setRangeEnd => "invalid range boundary, must be a literal"
  | setUnclosed => "unclosed character class"
  | decimalInvalid => "decimal literal invalid"
  | hexValue => "hexadecimal literal is not a Unicode scalar value"
  | hexDigit => "invalid hexadecimal digit"
  | escapeAtEnd => "incomplete escape sequence, reached end of pattern prematurely"
  | escapeUnknown => "unrecognized escape sequence"
  | flagNegationDangling => "dangling flag negation operator"
  | flagRepeated => "duplicate flag"
  | flagNegationRepeated => "flag negation operator repeated"
  | flagAtEnd => "expected flag but got end of regex"
  | flagUnknown => "unrecognized flag"
  | nameRepeated => "duplicate capture group name"
  | nameEmpty => "empty capture group name"
  | nameCharacter => "invalid capture group character"
  | nameUnclosed => "unclosed capture group name"
  | groupUnclosed => "unclosed group"
  | groupUnopened => "unopened group"
  | nesting => s!"exceed the maximum number of nested parentheses/brackets ({maxNesting})"
  | countMissing => "repetition quantifier expects a valid decimal"
  | countUnclosed => "unclosed counted repetition"
  | repetitionMissing => "repetition operator missing expression"
  | wordEdgeUnclosed =>
    "special word boundary assertion is either unclosed or contains an invalid character"
  | wordEdgeAtEnd =>
    "found either the beginning of a special word boundary or a bounded repetition " ++
      "on a \\b with an opening brace, but no closing brace"
  | propertyInvalid => "invalid Unicode character class"
  | backreference => "backreferences are not supported"
  | lookAround => "look-around, including look-ahead and look-behind, is not supported"
  | unicodeNotAllowed => "Unicode not allowed here"
  | invalidUtf8 => "pattern can match invalid UTF-8"
  | propertyUnknown => "Unicode property not found"
  | shorthandUnknown =>
    "Unicode-aware Perl class not found (make sure the unicode-perl feature is enabled)"
  | caseUnavailable =>
    "Unicode-aware case insensitivity matching is not available " ++
      "(make sure the unicode-case feature is enabled)"

structure Fault where
  complaint : Complaint
  span : Span
  /-- The earlier part that this one clashes with. -/
  earlier : Option Span := none
deriving DecidableEq, Repr

/-- Every part that is shown. -/
def Fault.spans (fault : Fault) : List Span := fault.earlier.toList ++ [fault.span]

/-! ## The text of a fault -/

/-- The lines of a text. A carriage return before the end of a line belongs to that end. -/
def linesOf (text : String) : List String :=
  go (text.splitOn "\n")
where
  go : List String → List String
    | [] => []
    | [last] => if last = "" then [] else [last]
    | line :: rest =>
      (if line.endsWith "\r" then String.ofList line.toList.dropLast else line) :: go rest

/-- So many times one character. -/
def repeated (n : Nat) (c : Char) : String := String.ofList (List.replicate n c)

/-- Carets under parts of one line, of which some columns have been written. An empty part has one
caret as well. -/
def carets (written : Nat) : List Span → String
  | [] => ""
  | span :: rest =>
    let start := max written (span.first.column - 1)
    let width := max 1 (span.past.column - span.first.column)
    repeated (start - written) ' ' ++ repeated width '^' ++ carets (start + width) rest

/-- What stands before a line; lines of a single one have no number. -/
def lineMargin (width number : Nat) : String :=
  if width = 0 then "    "
  else repeated (width - (toString number).length) ' ' ++ toString number ++ ": "

/-- Lines from a number on, with carets under the parts that stand in one line. -/
def annotated (width : Nat) (spans : List Span) : Nat → List String → List String
  | _, [] => []
  | number, line :: rest =>
    let margin := lineMargin width number
    let notes := match spans.filter (·.first.line = number) with
      | [] => []
      | spans => [repeated margin.length ' ' ++ carets 0 spans]
    (margin ++ line) :: notes ++ annotated width spans (number + 1) rest

/-- A part that goes over several lines, in words. -/
def Span.words (span : Span) : String :=
  s!"on line {span.first.line} (column {span.first.column}) through " ++
    s!"line {span.past.line} (column {span.past.column - 1})"

/-- The fault of a pattern, over several lines. -/
def Fault.text (pattern : String) (fault : Fault) : String :=
  let lines := linesOf pattern
  let count := lines.length + (if pattern.endsWith "\n" then 1 else 0)
  let width := if count ≤ 1 then 0 else (toString count).length
  let (inLine, across) := fault.spans.partition fun span => span.first.line = span.past.line
  let rule := if pattern.contains '\n' then [repeated 79 '~'] else []
  String.intercalate "\n" ("regex parse error:" :: rule ++ annotated width inLine 1 lines ++ rule ++
    across.map Span.words ++ ["error: " ++ fault.complaint.message])

end Interchange.Pattern
