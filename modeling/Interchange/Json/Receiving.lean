import Interchange.Json.Count
import Interchange.Json.Parser
import Interchange.Json.Skipping

/-!
# Typed reading

Readers that want a kind of value and say what they found instead. A record is read from an object,
whose unknown members are passed over, or from an array of its fields in order; fields that do not
come keep the values they have. A reader that refuses a value has read it, brackets apart, and
names the place behind it.
-/

namespace Interchange.Json

/-- A string or null. -/
def receiveOptionalText (wanted : String) : Reader (Option String) := fun rest =>
  match skipBlanks rest with
  | 'n' :: rest => do return (none, ← word ['u', 'l', 'l'] rest)
  | rest => do
    let (s, rest) ← receiveText wanted rest
    return (some s, rest)

/-- A truth value. -/
def receiveBool : Reader Bool := fun rest =>
  match skipBlanks rest with
  | 't' :: rest => do return (true, ← word ['r', 'u', 'e'] rest)
  | 'f' :: rest => do return (false, ← word ['a', 'l', 's', 'e'] rest)
  | rest => mismatch "a boolean" rest

/-- A number that has to be a count. -/
def countAfterSign (wanted : String) (negative : Bool) : Reader Nat := fun rest => do
  let (n, rest) ← numeral negative rest
  match n.count with
  | .ok (.natural count) => return (count, rest)
  | .ok (.negative i) => stopHere (.invalidValue (.integer i) wanted) rest
  | .ok (.float x) => stopHere (.invalidType (.float x) wanted) rest
  | .error left =>
    let behind := Text.byteCount rest + left
    .error ⟨.numberOutOfRange, behind, behind⟩

/-- A count. -/
def receiveCount (wanted : String) : Reader Nat := fun rest =>
  match skipBlanks rest with
  | '-' :: rest => countAfterSign wanted true rest
  | [] => stopHere .endInValue []
  | c :: rest =>
    if c.isDigit then countAfterSign wanted false (c :: rest) else mismatch wanted (c :: rest)

/-- A list of values of one kind. -/
def receiveList {α : Type} (item : Reader α) : Reader (List α) := fun rest =>
  match skipBlanks rest with
  | '[' :: rest => listItems item (rest.length + 1) true rest
  | rest => mismatch "a sequence" rest

/-! ## Records -/

/-- A field of a record: its name, and a reader of what it makes of the record. -/
structure FieldReader (σ : Type) where
  name : String
  receive : Reader (σ → σ)

/-- A field whose value is put into the record. -/
def FieldReader.of {σ α : Type} (name : String) (reader : Reader α) (put : α → σ → σ) :
    FieldReader σ where
  name
  receive rest := do
    let (a, rest) ← reader rest
    return (put a, rest)

section Records

variable {σ : Type}

/-- The place at which a field that came twice is noticed: behind the blanks after its name, and
behind a closing brace there. -/
def afterName (rest : List Char) : List Char :=
  match skipBlanks rest with
  | '\x7d' :: rest => rest
  | rest => rest

/-- A member after the opening quote of its name, with the names that have come. -/
def receiveMember (fields : List (FieldReader σ)) (seen : List String) (record : σ) :
    Reader (List String × σ) := fun rest => do
  let (name, rest) ← stringBody rest
  match fields.find? fun field => field.name == name with
  | none => return ((seen, record), ← skipValue (← colon rest))
  | some field =>
    if seen.contains name then stopHere (.duplicateField name) (afterName rest)
    else do
      let (change, rest) ← field.receive (← colon rest)
      return ((name :: seen, change record), rest)

/-- The members of an object up to its closing brace; `first` says that none has been read. The
fuel is above the length of the rest: each member takes at least one character. -/
def receiveMembers (fields : List (FieldReader σ)) : Nat → Bool → List String → σ → Reader σ
  | 0, _, _, _, rest => stopNext .endInObject rest
  | fuel + 1, first, seen, record, rest =>
    match skipBlanks rest with
    | [] => stopHere .endInObject []
    | '\x7d' :: rest => .ok (record, rest)
    | c :: rest =>
      if first then
        if c = '"' then do
          let ((seen, record), rest) ← receiveMember fields seen record rest
          receiveMembers fields fuel false seen record rest
        else stopNext .keyMustBeString (c :: rest)
      else if c = ',' then
        match skipBlanks rest with
        | [] => stopHere .endInValue []
        | '"' :: rest => do
          let ((seen, record), rest) ← receiveMember fields seen record rest
          receiveMembers fields fuel false seen record rest
        | '\x7d' :: rest => stopNext .trailingComma ('\x7d' :: rest)
        | rest => stopNext .keyMustBeString rest
      else stopNext .expectedObjectCommaOrEnd (c :: rest)

/-- The end of an array whose fields have all been read. -/
def closeFields (record : σ) : Reader σ := fun rest =>
  match skipBlanks rest with
  | [] => stopHere .endInList []
  | ']' :: rest => .ok (record, rest)
  | ',' :: rest =>
    match skipBlanks rest with
    | [] => stopHere .trailingCharacters []
    | ']' :: rest => stopNext .trailingComma (']' :: rest)
    | rest => stopNext .trailingCharacters rest
  | rest => stopNext .trailingCharacters rest

/-- The fields of an array, in order, up to its closing bracket; `first` says that none has been
read. -/
def receiveFields : List (FieldReader σ) → Bool → σ → Reader σ
  | [], _, record, rest => closeFields record rest
  | field :: fields, first, record, rest =>
    match skipBlanks rest with
    | [] => stopHere .endInList []
    | ']' :: rest => .ok (record, rest)
    | c :: rest =>
      if first then do
        let (change, rest) ← field.receive (c :: rest)
        receiveFields fields false (change record) rest
      else if c = ',' then
        match skipBlanks rest with
        | [] => stopHere .endInValue []
        | ']' :: rest => stopNext .trailingComma (']' :: rest)
        | rest => do
          let (change, rest) ← field.receive rest
          receiveFields fields false (change record) rest
      else stopNext .expectedListCommaOrEnd (c :: rest)

/-- A record, from an object or an array. -/
def receiveRecord (name : String) (fields : List (FieldReader σ)) (start : σ) :
    Reader σ := fun rest =>
  match skipBlanks rest with
  | '[' :: rest => receiveFields fields true start rest
  | '\x7b' :: rest => receiveMembers fields (rest.length + 1) true [] start rest
  | rest => mismatch ("struct " ++ name) rest

end Records

end Interchange.Json
