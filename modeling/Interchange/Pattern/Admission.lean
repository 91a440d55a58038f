import Interchange.Pattern.Reading

/-!
# Patterns that can be used

A pattern is read, and then its parts are looked at in the order in which they stand. Parts stand
in each other only so deep. Nothing is known of characters beyond ASCII but their numbers: neither
their properties, nor which are digits, blanks or parts of words, nor what the other case of one is.
Where a pattern leaves Unicode and goes by bytes, it may not match what is no text. And edges of
words can only be told apart in ASCII.
-/

namespace Interchange.Pattern

/-! ## Nesting -/

/-- One deeper, for a part. -/
def deeper (depth : Nat) (span : Span) : Except Fault Nat :=
  if depth < maxNesting then .ok (depth + 1) else .error { complaint := .nesting, span }

mutual

def CharSet.checkNesting (depth : Nat) : CharSet → Except Fault Unit
  | .bracketed span _ content => do content.checkNesting (← deeper depth span)
  | .union span parts => do CharSet.checkNestingAll (← deeper depth span) parts
  | .operation span left right => do
    let depth ← deeper depth span
    left.checkNesting depth
    right.checkNesting depth
  | _ => .ok ()

def CharSet.checkNestingAll (depth : Nat) : List CharSet → Except Fault Unit
  | [] => .ok ()
  | part :: rest => do
    part.checkNesting depth
    CharSet.checkNestingAll depth rest

end

mutual

def Node.checkNesting (depth : Nat) : Node → Except Fault Unit
  | .set content => content.checkNesting depth
  | .repetition span inner => do inner.checkNesting (← deeper depth span)
  | .group span _ inner => do inner.checkNesting (← deeper depth span)
  | .alternation span parts => do Node.checkNestingAll (← deeper depth span) parts
  | .concat span parts => do Node.checkNestingAll (← deeper depth span) parts
  | _ => .ok ()

def Node.checkNestingAll (depth : Nat) : List Node → Except Fault Unit
  | [] => .ok ()
  | part :: rest => do
    part.checkNesting depth
    Node.checkNestingAll depth rest

end

/-! ## Admission -/

/-- How characters are taken. -/
structure Modes where
  /-- Is the case of letters passed over? -/
  caseless : Bool := false
  /-- Are they characters, or bytes? -/
  unicode : Bool := true

/-- The modes where flags hold. -/
def Modes.with (modes : Modes) (flags : Flags) : Modes where
  caseless := (flags.state? 'i').getD modes.caseless
  unicode := (flags.state? 'u').getD modes.unicode

/-- Must the other case of characters be known? -/
def Modes.foldsCase (modes : Modes) : Bool := modes.caseless && modes.unicode

/-- Refuses a part if something holds. -/
def refuseIf (condition : Bool) (complaint : Complaint) (span : Span) : Except Fault Unit :=
  if condition then .error { complaint, span } else .ok ()

/-- A literal may not be a byte that is no character. -/
def Literal.admit (modes : Modes) (l : Literal) : Except Fault Unit :=
  refuseIf (!modes.unicode && l.isByte && 127 < l.char.toNat) .invalidUtf8 l.span

/-- A literal of a class may not be a character that is no byte. -/
def Literal.admitInSet (modes : Modes) (l : Literal) : Except Fault Unit := do
  l.admit modes
  refuseIf (!modes.unicode && 127 < l.char.toNat) .unicodeNotAllowed l.span

mutual

/-- Does a set list characters itself, not in a class inside it? -/
def CharSet.listsCharacters : CharSet → Bool
  | .literal _ => true
  | .range _ _ _ => true
  | .union _ parts => CharSet.anyListsCharacters parts
  | _ => false

def CharSet.anyListsCharacters : List CharSet → Bool
  | [] => false
  | part :: rest => part.listsCharacters || CharSet.anyListsCharacters rest

end

mutual

def CharSet.admit (modes : Modes) : CharSet → Except Fault Unit
  | .empty _ => .ok ()
  | .literal l => l.admitInSet modes
  | .range _ least greatest => do
    least.admitInSet modes
    greatest.admitInSet modes
  | .named span negated => do
    refuseIf modes.foldsCase .caseUnavailable span
    refuseIf (!modes.unicode && negated) .invalidUtf8 span
  | .shorthand span negated => do
    refuseIf modes.unicode .shorthandUnknown span
    refuseIf negated .invalidUtf8 span
  | .property span =>
    .error { complaint := if modes.unicode then .propertyUnknown else .unicodeNotAllowed, span }
  | .bracketed span negated content => do
    content.admit modes
    refuseIf (modes.foldsCase && content.listsCharacters) .caseUnavailable span
    refuseIf (!modes.unicode && negated) .invalidUtf8 span
  | .union _ parts => CharSet.admitAll modes parts
  | .operation _ left right => do
    left.admit modes
    right.admit modes
    refuseIf (modes.foldsCase && right.listsCharacters) .caseUnavailable right.span
    refuseIf (modes.foldsCase && left.listsCharacters) .caseUnavailable left.span

def CharSet.admitAll (modes : Modes) : List CharSet → Except Fault Unit
  | [] => .ok ()
  | part :: rest => do
    part.admit modes
    CharSet.admitAll modes rest

end

/-- What is known behind a part of a pattern. -/
structure Survey where
  modes : Modes := {}
  /-- Has there been an edge of a word outside of ASCII? -/
  wordEdges : Bool := false

mutual

/-- Looks at a part; flags hold for what follows in the same group. -/
def Node.admit (survey : Survey) : Node → Except Fault Survey
  | .empty _ => .ok survey
  | .flags _ letters => .ok { survey with modes := survey.modes.with letters }
  | .literal l => do
    l.admit survey.modes
    refuseIf survey.modes.foldsCase .caseUnavailable l.span
    return survey
  | .dot span => do
    refuseIf (!survey.modes.unicode) .invalidUtf8 span
    return survey
  | .edge _ => .ok survey
  | .wordEdge _ => .ok { survey with wordEdges := survey.wordEdges || survey.modes.unicode }
  | .set content => do
    content.admit survey.modes
    return survey
  | .repetition _ inner => inner.admit survey
  | .group _ letters inner => do
    let inside ← inner.admit { survey with modes := survey.modes.with letters }
    return { inside with modes := survey.modes }
  | .alternation _ branches => Node.admitAll survey branches
  | .concat _ parts => Node.admitAll survey parts

def Node.admitAll (survey : Survey) : List Node → Except Fault Survey
  | [] => .ok survey
  | part :: rest => do Node.admitAll (← part.admit survey) rest

end

/-- Why a pattern cannot be used. -/
inductive Problem where
  | fault (fault : Fault)
  | wordEdges
deriving DecidableEq, Repr

/-- The survey of a whole text. -/
def survey (text : String) : Except Fault Survey := do
  let node ← read text
  node.checkNesting 0
  node.admit {}

/-- Checks a pattern. -/
def check (text : String) : Except Problem Unit :=
  match survey text with
  | .error fault => .error (.fault fault)
  | .ok survey => if survey.wordEdges then .error .wordEdges else .ok ()

end Interchange.Pattern
