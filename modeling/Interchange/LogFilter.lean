import Interchange.Pattern.Admission
import Interchange.Report

/-!
# Log filters

What is to be logged: directives, separated by commas. A directive is a level, or a target, a span
in brackets with a field in braces, or both, and then, after an equals sign, perhaps a level. A
field may come with a value, which is a truth value, a number, or else a pattern:

    info    store    store=warn    store[load]=debug    [load{size}]    [load{name=a.*}]

Nothing is logged here; a filter is checked, so that a wrong one is reported before anything else
happens.
-/

namespace Interchange.LogFilter

/-- What is wrong with a filter. -/
inductive Problem where
  | directive
  | level
  /-- The value of a field is no pattern that can be used. -/
  | pattern (text : String) (problem : Pattern.Problem)
deriving DecidableEq, Repr

/-- Characters from one position to before another, in bytes. -/
def slice : Nat → Nat → List Char → List Char
  | _, _, [] => []
  | start, stop, c :: rest =>
    let others := slice (start - c.utf8Size) (stop - c.utf8Size) rest
    if start = 0 ∧ 0 < stop then c :: others else others

/-! ## Fields -/

/-- An exponent, or nothing. -/
def isExponent : List Char → Bool
  | [] => true
  | mark :: rest =>
    let digits := match rest with
      | '+' :: digits => digits
      | '-' :: digits => digits
      | digits => digits
    (mark = 'e' || mark = 'E') && !digits.isEmpty && digits.all Char.isDigit

/-- Digits with a point somewhere or none, and an exponent or none. -/
def isDecimal (chars : List Char) : Bool :=
  let whole := chars.takeWhile Char.isDigit
  match chars.dropWhile Char.isDigit with
  | '.' :: rest =>
    !(whole.isEmpty && (rest.takeWhile Char.isDigit).isEmpty) &&
      isExponent (rest.dropWhile Char.isDigit)
  | rest => !whole.isEmpty && isExponent rest

/-- Is a text a number? One that is infinite or none is meant too. -/
def isNumber (chars : List Char) : Bool :=
  let unsigned := match chars with
    | '+' :: rest => rest
    | '-' :: rest => rest
    | rest => rest
  ["inf", "infinity", "nan"].contains (String.ofList (unsigned.map Char.toLower)) ||
    isDecimal unsigned

/-- Checks the value of a field. -/
def checkValue (text : String) : Except Problem Unit :=
  if text = "true" ∨ text = "false" ∨ isNumber text.toList then .ok ()
  else (Pattern.check text).mapError (.pattern text)

/-- Checks a field: a name, and perhaps an equals sign and a value up to another. -/
def checkField (text : String) : Except Problem Unit :=
  match text.splitOn "=" with
  | _ :: value :: _ => checkValue value
  | _ => .ok ()

/-! ## Phases of a directive -/

/-- How far a directive has been read. -/
inductive Phase where
  | start
  /-- In a name, which is a level or a target. -/
  | name
  /-- In the name of a span, behind its bracket. -/
  | span
  /-- In a field that begins at a position. -/
  | field (start : Nat)
  /-- Behind the braces of a field. -/
  | fields
  /-- Behind the bracket of a span. -/
  | target
  /-- Behind the equals sign, at a position. -/
  | level (start : Nat)
deriving DecidableEq, Repr

/-- May a name begin with a character? -/
def beginsName (c : Char) : Bool := c = '-' || c = ':' || c = '_' || Text.isAlphanumeric c

/-- The phase after a character at a position of a directive. -/
def step (directive : List Char) (position : Nat) (c : Char) : Phase → Except Problem Phase
  | .start =>
    if c = '[' then .ok .span else if beginsName c then .ok .name else .error .directive
  | .name => .ok (if c = '=' then .level (position + 1) else if c = '[' then .span else .name)
  | .span => .ok (if c = ']' then .target else if c = '{' then .field (position + 1) else .span)
  | .field start =>
    if c ≠ '}' then .ok (.field start)
    else if start = position then .error .directive
    else do
      checkField (String.ofList (slice start position directive))
      return .fields
  | .fields => if c = ']' then .ok .target else .error .directive
  | .target => if c = '=' then .ok (.level (position + 1)) else .error .directive
  | .level start => .ok (.level start)

/-- The phase after characters that begin at a position. -/
def scan (directive : List Char) (position : Nat) : List Char → Phase → Except Problem Phase
  | [], phase => .ok phase
  | c :: rest, phase => do
    scan directive (position + c.utf8Size) rest (← step directive position c phase)

/-! ## Levels -/

def levelNames : List String := ["off", "error", "warn", "info", "debug", "trace"]

/-- A number from 0 to 5, perhaps with a plus sign and with zeros before it. -/
def isLevelNumber (chars : List Char) : Bool :=
  let digits := match chars with
    | '+' :: digits => digits
    | digits => digits
  !digits.isEmpty && digits.all Char.isDigit &&
    (match digits.dropWhile (· = '0') with
    | [] => true
    | [digit] => digit ≤ '5'
    | _ => false)

/-- Is a text a level? Its case does not matter, and it may be left out. -/
def isLevel (text : String) : Bool :=
  text = "" || levelNames.contains (text.map Char.toLower) || isLevelNumber text.toList

/-! ## Directives -/

/-- Checks one directive. Blanks around it do not count, but fields and levels are what stands at
their positions in the text with them: a level has no blanks around it. -/
def checkDirective (text : String) : Except Problem Unit := do
  let directive := text.toList
  match ← scan directive 0 (Text.trimmed Text.isBlank directive) .start with
  | .name => return ()
  | .target => return ()
  | .level start =>
    if isLevel (String.ofList (slice start text.utf8ByteSize directive)) then return ()
    else throw .level
  | _ => throw .directive

/-- Checks a filter. Where nothing stands between commas, there is no directive. -/
def check (text : String) : Except Problem Unit :=
  ((text.splitOn ",").filter (· ≠ "")).forM checkDirective

/-! ## Reports -/

/-- The words for a wrong level. -/
def wrongLevel : String :=
  "error parsing level filter: expected one of " ++
    String.intercalate ", " (levelNames.map fun name => "\"" ++ name ++ "\"") ++
    ", or a number 0-5"

/-- The words for a pattern with edges of words that are not told apart. -/
def wordEdges : String :=
  "unsupported regex feature for DFAs: cannot build DFAs for regexes with Unicode word " ++
    "boundaries; switch to ASCII word boundaries, or heuristically enable Unicode word " ++
    "boundaries or use a different regex engine"

/-- What a problem says, from the nearest cause to the farthest. A wrong level or value is told by
the directive as well as by the level or the value. -/
def Problem.causes : Problem → List String
  | .directive => ["invalid filter directive"]
  | .level => [wrongLevel, wrongLevel]
  | .pattern text (.fault fault) =>
    ["invalid field filter: error building NFA", "error building NFA", "error parsing regex",
      fault.text text]
  | .pattern _ .wordEdges => ["invalid field filter: " ++ wordEdges, wordEdges]

/-- The report of a problem. -/
def Problem.report (problem : Problem) : Report := ⟨"invalid log level", problem.causes⟩

end Interchange.LogFilter
