import Interchange.Pattern.Bracket
import Interchange.Text.Alphanumeric

/-!
# The tree of a text

Branches between bars, parts one behind the other, repetitions of the last part, groups. Flags that
a group sets for itself hold up to its end.
-/

namespace Interchange.Pattern

namespace Reader

/-! ## Groups -/

/-- May a character begin the name of a group, or go on with it? -/
def isNameChar (isFirst : Bool) (c : Char) : Bool :=
  if isFirst then c = '_' || Text.isAlphabetic c
  else c = '_' || c = '.' || c = '[' || c = ']' || Text.isAlphanumeric c

/-- How many characters belong to a name. -/
def nameLength : List Char → Nat
  | [] => 0
  | c :: rest =>
    if isNameChar true c then (rest.takeWhile (isNameChar false)).length + 1 else 0

/-- The name of a group, with the sign behind it. -/
def groupName : Reader Unit := do
  let start ← here
  let rest := (← get).rest
  let length := nameLength rest
  let name := String.ofList (rest.take length)
  drop length
  let span ← spanFrom start
  match ← next? with
  | none => failHere .nameUnclosed
  | some '>' =>
    drop 1
    if length = 0 then fail .nameEmpty span
    match (← get).names.lookup name with
    | some earlier => throw { complaint := .nameRepeated, span, earlier := some earlier }
    | none => modify fun cursor => { cursor with names := (name, span) :: cursor.names }
  | some _ => failChar .nameCharacter

/-- The letters of flags. -/
def flagLetters : List Char := ['i', 'm', 's', 'U', 'u', 'R', 'x']

/-- Flags, up to a colon or a bracket. -/
def flagsWithin : Nat → Flags → Reader Flags
  | 0, flags => return flags
  | fuel + 1, flags => do
    match ← next? with
    | none => failHere .flagAtEnd
    | some c =>
      if c = ':' ∨ c = ')' then
        match flags.getLast? with
        | some ('-', span) => fail .flagNegationDangling span
        | _ => return flags
      else
        let span ← charSpan
        let isSign := c = '-'
        if !isSign && !flagLetters.contains c then fail .flagUnknown span
        match flags.lookup c with
        | some earlier =>
          let complaint := if isSign then Complaint.flagNegationRepeated else .flagRepeated
          throw { complaint, span, earlier := some earlier }
        | none =>
          match ← advance with
          | none => failHere .flagAtEnd
          | some _ => flagsWithin fuel (flags ++ [(c, span)])

/-- What an opening bracket begins. -/
inductive Opening where
  | flags (span : Span) (flags : Flags)
  | group (span : Span) (flags : Flags)

/-- What looks behind or ahead of the place where it stands. -/
def lookAround : Reader Bool :=
  passes "?=" <||> passes "?!" <||> passes "?<=" <||> passes "?<!"

def opening : Reader Opening := do
  let span ← charSpan
  drop 1
  skipBlanks
  let inner ← here
  if ← lookAround then failFrom .lookAround span.first
  else if ← passes "?P<" <||> passes "?<" then
    groupName
    return .group span []
  else if ← passes "?" then
    if (← next?).isNone then fail .groupUnclosed span
    let flags ← flagsWithin ((← get).rest.length + 1) []
    let sign ← next?
    drop 1
    if sign = some ':' then return .group span flags
    else if flags.isEmpty then fail .repetitionMissing (Span.at inner)
    else return .flags (← spanFrom span.first) flags
  else return .group span []

/-! ## Repetitions -/

/-- The part that a repetition repeats: the last one, if it is more than flags. -/
def repeatedPart : List Node → Reader (Node × List Node)
  | [] => failHere .repetitionMissing
  | .empty _ :: _ => failHere .repetitionMissing
  | .flags _ _ :: _ => failHere .repetitionMissing
  | part :: others => return (part, others)

/-- A repetition by a sign, perhaps with a question mark behind it. -/
def repetition (parts : List Node) : Reader (List Node) := do
  let (part, others) ← repeatedPart parts
  if (← advance) = some '?' then drop 1
  return .repetition (← spanFrom part.span.first) part :: others

/-- A count is below this. -/
def countLimit : Nat := 4294967296

/-- A repetition by counts in braces, which are not closed. -/
def countedRepetition {α : Type} (parts : List Node) : Reader α := do
  let start ← here
  let _ ← repeatedPart parts
  match ← proceed with
  | none => failFrom .countUnclosed start
  | some _ =>
    let _ ← takeWhile Text.isBlank
    let digitsStart ← here
    let digits ← takeWhile Char.isDigit
    let span ← spanFrom digitsStart
    let _ ← takeWhile Text.isBlank
    if (← next?).isNone then failFrom .countUnclosed start
    else if digits.isEmpty then fail .countMissing span
    else if countLimit ≤ digits.foldl (fun n c => 10 * n + (c.toNat - '0'.toNat)) 0 then
      fail .decimalInvalid span
    else failFrom .countUnclosed start

/-! ## Branches -/

/-- Branches so far. -/
structure Draft where
  /-- Where the first branch begins. -/
  start : Position
  /-- The branches that are complete, the last first. -/
  branches : List Node := []
  /-- Where the branch begins that is being read. -/
  branchStart : Position
  /-- The parts of that branch, the last first. -/
  parts : List Node := []

namespace Draft

/-- Nothing, from a place on. -/
def beginning (p : Position) : Draft := { start := p, branchStart := p }

/-- The branch that is being read, up to a place. -/
def branch (draft : Draft) (stop : Position) : Node :=
  match draft.parts with
  | [] => .empty ⟨draft.branchStart, stop⟩
  | [part] => part
  | parts => .concat ⟨draft.branchStart, stop⟩ parts.reverse

/-- All branches, up to a place. -/
def whole (draft : Draft) (stop : Position) : Node :=
  match draft.branches with
  | [] => draft.branch stop
  | branches => .alternation ⟨draft.start, stop⟩ (draft.branch stop :: branches).reverse

def add (draft : Draft) (part : Node) : Draft := { draft with parts := part :: draft.parts }

end Draft

/-- Reads branches, in a group that opens at a part or outside of groups. -/
def branches : Nat → Option Span → Draft → Reader Node
  | 0, _, draft => return draft.whole (← here)
  | fuel + 1, group, draft => do
    skipBlanks
    match ← next?, group with
    | none, none => return draft.whole (← here)
    | none, some span => fail .groupUnclosed span
    | some ')', none => failChar .groupUnopened
    | some ')', some _ => return draft.whole (← here)
    | some '|', _ => do
      let branch := draft.branch (← here)
      drop 1
      branches fuel group
        { draft with branches := branch :: draft.branches, branchStart := ← here, parts := [] }
    | some '(', _ => do
      match ← opening with
      | .flags span flags =>
        modify fun cursor => { cursor with spaced := (flags.state? 'x').getD cursor.spaced }
        branches fuel group (draft.add (.flags span flags))
      | .group span flags =>
        let outside := (← get).spaced
        modify fun cursor => { cursor with spaced := (flags.state? 'x').getD outside }
        let inner ← branches fuel (some span) (.beginning (← here))
        modify fun cursor => { cursor with spaced := outside }
        drop 1
        branches fuel group (draft.add (.group (← spanFrom span.first) flags inner))
    | some '[', _ => do
      let set ← bracket
      branches fuel group (draft.add (.set set))
    | some '{', _ => countedRepetition draft.parts
    | some c, _ => do
      if c = '?' ∨ c = '*' ∨ c = '+' then
        let parts ← repetition draft.parts
        branches fuel group { draft with parts }
      else
        let part ← match c with
          | '\\' => escape
          | '.' => pure (.dot (← literal c).span)
          | '^' => pure (.edge (← literal c).span)
          | '$' => pure (.edge (← literal c).span)
          | c => pure (.literal (← literal c))
        branches fuel group (draft.add part)

end Reader

/-- The tree of a text without commas, equals signs and closing braces. -/
def read (text : String) : Except Fault Node :=
  let start : Cursor := { rest := text.toList }
  (Reader.branches (start.rest.length + 1) none (.beginning start.position)).run' start

end Interchange.Pattern
