import Interchange.Pattern.Escape

/-!
# Classes in brackets

A class lists characters, ranges and other classes. Two ampersands, minus signs or tildes set it
off against what follows. A bracket that is never closed is told by how the innermost such class
opens: the bracket, a caret, and the minus signs or the closing bracket that stand for themselves.
-/

namespace Interchange.Pattern.Reader

/-- A class so far. -/
structure SetDraft where
  /-- Where the list begins. -/
  start : Position
  /-- The list, the last part first. -/
  parts : List CharSet := []
  /-- What the list is set off against. -/
  against : Option CharSet := none

namespace SetDraft

def add (draft : SetDraft) (part : CharSet) : SetDraft :=
  { draft with parts := part :: draft.parts }

/-- The list as one set. -/
def listed (draft : SetDraft) : CharSet :=
  match draft.parts with
  | [] => .empty (Span.at draft.start)
  | [part] => part
  | last :: others =>
    .union ⟨(others.getLast?.getD last).span.first, last.span.past⟩ draft.parts.reverse

def whole (draft : SetDraft) : CharSet :=
  match draft.against with
  | none => draft.listed
  | some left =>
    .operation ⟨left.span.first, draft.listed.span.past⟩ left draft.listed

end SetDraft

/-- The names of classes in brackets and colons. -/
def setNames : List String :=
  ["alnum", "alpha", "ascii", "blank", "cntrl", "digit", "graph", "lower", "print", "punct",
    "space", "upper", "word", "xdigit"]

/-- Is a named class next? Answers whether it is negated, and its length. -/
def namedSet? : List Char → Option (Bool × Nat)
  | '[' :: ':' :: rest =>
    let negated := rest.head? = some '^'
    let rest := if negated then rest.drop 1 else rest
    let name := rest.takeWhile (· ≠ ':')
    if setNames.contains (String.ofList name) && [':', ']'].isPrefixOf (rest.drop name.length) then
      some (negated, name.length + (if negated then 5 else 4))
    else none
  | _ => none

/-- How a class opens: the part that it takes, and whether it is negated. -/
structure SetOpening where
  span : Span
  negated : Bool

/-- Minus signs before all else in a class. -/
def leadingSigns (start : Position) : Nat → SetDraft → Reader SetDraft
  | 0, draft => return draft
  | fuel + 1, draft => do
    if (← next?) = some '-' then
      let span ← charSpan
      match ← proceed with
      | none => fail .setUnclosed (Span.at start)
      | some _ => leadingSigns start fuel (draft.add (.literal { char := '-', span }))
    else return draft

/-- Opens a class. -/
def setOpening : Reader (SetOpening × SetDraft) := do
  let start ← here
  let negated ← match ← proceed with
    | none => failFrom .setUnclosed start
    | some '^' =>
      match ← proceed with
      | none => failFrom .setUnclosed start
      | some _ => pure true
    | some _ => pure false
  let draft ← leadingSigns start (← get).rest.length { start := ← here }
  if draft.parts.isEmpty ∧ (← next?) = some ']' then
    let span ← charSpan
    match ← proceed with
    | none => failFrom .setUnclosed start
    | some _ =>
      return (⟨← spanFrom start, negated⟩, draft.add (.literal { char := ']', span }))
  else return (⟨← spanFrom start, negated⟩, draft)

/-- A character or an escape in a class. -/
def setItem : Reader Node := do
  match ← next? with
  | some '\\' => escape
  | some c => return .literal (← literal c)
  | none => failHere .setUnclosed

/-- An item that stands for itself. -/
def partOfItem : Node → Reader CharSet
  | .literal l => return .literal l
  | .set s => return s
  | item => fail .setEscape item.span

/-- An item at an end of a range. -/
def endOfRange : Node → Reader Literal
  | .literal l => return l
  | item => fail .setRangeEnd item.span

/-- An item or a range. A minus sign before a bracket or before another is not that of a range. -/
def setPart (opening : SetOpening) : Reader CharSet := do
  let least ← setItem
  skipBlanks
  let second := (← get).second?
  match ← next? with
  | none => fail .setUnclosed opening.span
  | some c =>
    if c ≠ '-' ∨ second = some ']' ∨ second = some '-' then partOfItem least
    else
      match ← proceed with
      | none => fail .setUnclosed opening.span
      | some _ =>
        let greatest ← setItem
        let span : Span := ⟨least.span.first, greatest.span.past⟩
        let least ← endOfRange least
        let greatest ← endOfRange greatest
        if least.char ≤ greatest.char then return .range span least greatest
        else fail .setRange span

/-- The rest of a class. -/
def setRest : Nat → SetOpening → SetDraft → Reader CharSet
  | 0, opening, draft => return .bracketed opening.span opening.negated draft.whole
  | fuel + 1, opening, draft => do
    skipBlanks
    let rest := (← get).rest
    match rest with
    | [] => fail .setUnclosed opening.span
    | ']' :: _ =>
      drop 1
      return .bracketed (← spanFrom opening.span.first) opening.negated draft.whole
    | '[' :: _ =>
      match namedSet? rest with
      | some (negated, length) =>
        let start ← here
        drop length
        setRest fuel opening (draft.add (.named (← spanFrom start) negated))
      | none =>
        let (inner, innerDraft) ← setOpening
        let part ← setRest fuel inner innerDraft
        setRest fuel opening (draft.add part)
    | c :: behind =>
      if (c = '&' ∨ c = '-' ∨ c = '~') ∧ behind.head? = some c then
        drop 2
        setRest fuel opening { start := ← here, against := some draft.whole }
      else
        let part ← setPart opening
        setRest fuel opening (draft.add part)

/-- A class in brackets. -/
def bracket : Reader CharSet := do
  let fuel := (← get).rest.length
  let (opening, draft) ← setOpening
  setRest fuel opening draft

end Interchange.Pattern.Reader
