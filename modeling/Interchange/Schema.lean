import Interchange.Json.Parser
import Interchange.Json.Printer

/-!
# Schemas

A schema says which JSON trees a typed receiver takes. `Schema.read` gives the tree of what was
received: members it does not know are gone, members that may be missing are null.
-/

namespace Interchange

inductive Schema where
  /-- Integers of a named type with a least and a greatest value. -/
  | integer (name : String) (least greatest : Int)
  | float
  | bool
  | string
  | any
  | optional (inner : Schema)
  | list (item : Schema)
  /-- Objects whose members all have one schema. -/
  | map (item : Schema)
  | tuple (items : List Schema)
  | record (name : String) (fields : List (String × Schema))

namespace Schema

/-- The words for what is wanted. -/
def expected : Schema → String
  | integer name _ _ => name
  | float => "f64"
  | bool => "a boolean"
  | string => "a string"
  | any => "any valid JSON value"
  | optional inner => inner.expected
  | list _ => "a sequence"
  | map _ => "a map"
  | tuple items => s!"a tuple of size {items.length}"
  | record name _ => "struct " ++ name

/-- What a tree is found to be. -/
def found : Json → Json.Found
  | .null => .null
  | .bool b => .boolean b
  | .number _ => .number
  | .string s => .string s
  | .array _ => .sequence
  | .object _ => .map

def mayBeMissing : Schema → Bool
  | optional _ => true
  | _ => false

/-- A tree of another kind than the schema's. -/
def refuse {α : Type} (schema : Schema) (tree : Json) : Except Json.Complaint α :=
  .error (.invalidType (found tree) schema.expected)

/-- The fields that were received, in the order of the schema. A field that was not is missing,
unless it may be. -/
def arrange (received : List (String × Json)) :
    List (String × Schema) → Except Json.Complaint (List (String × Json))
  | [] => .ok []
  | (name, schema) :: rest =>
    match received.lookup name with
    | some item => return (name, item) :: (← arrange received rest)
    | none =>
      if schema.mayBeMissing then return (name, .null) :: (← arrange received rest)
      else .error (.missingField name)

/-- Too few items, or more than are taken. -/
def lengthComplaint (wanted got : Nat) (expected : String) : Json.Complaint :=
  if got < wanted then .invalidLength got expected
  else .invalidLength got "fewer elements in array"

/-- The outcomes of the fields that an object has members for, in the order of the object. -/
def collect (outcomes : List (String × Except Json.Complaint Json)) :
    List (String × Json) → Except Json.Complaint (List (String × Json))
  | [] => .ok []
  | (name, _) :: rest =>
    match outcomes.lookup name with
    | none => collect outcomes rest
    | some outcome => do
      let item ← outcome
      return (name, item) :: (← collect outcomes rest)

/-- The number that an object stands for, whose first member has the name for that. -/
def readNumber (content : Json) (size : Nat) : Except Json.Complaint Json :=
  match content with
  | .string text =>
    match Json.Numeral.parse text with
    | .error fault => .error (.inNumber fault.text)
    | .ok n =>
      if size = 1 then .ok (.number (.written n))
      else .error (.invalidLength size "fewer elements in map")
  | content => .error (.invalidType (found content) Json.numberText)

mutual

/-- What a receiver of any tree holds of it. -/
def readAny : Json → Except Json.Complaint Json
  | .array items => return .array (← readAnyItems items)
  | .object [] => .ok (.object [])
  | .object ((name, content) :: rest) =>
    if name = Json.numberName then readNumber content (rest.length + 1)
    else do
      let content ← readAny content
      return .object ((name, content) :: (← readAnyMembers rest))
  | tree => .ok tree

def readAnyItems : List Json → Except Json.Complaint (List Json)
  | [] => .ok []
  | item :: rest => do
    let item ← readAny item
    return item :: (← readAnyItems rest)

def readAnyMembers : List (String × Json) → Except Json.Complaint (List (String × Json))
  | [] => .ok []
  | (name, content) :: rest => do
    let content ← readAny content
    return (name, content) :: (← readAnyMembers rest)

end

mutual

/-- What a receiver of the schema holds of a tree, as a tree. -/
def read : Schema → Json → Except Json.Complaint Json
  | .integer name least greatest, tree =>
    match tree with
    | .number (.integer i) =>
      if least ≤ i ∧ i ≤ greatest then .ok tree else .error .invalidNumber
    | .number _ => .error .invalidNumber
    | tree => refuse (.integer name least greatest) tree
  | .float, tree =>
    match tree with
    | .number n => .ok (.ofBinary64 n.toBinary64)
    | tree => refuse .float tree
  | .bool, tree =>
    match tree with
    | .bool _ => .ok tree
    | tree => refuse .bool tree
  | .string, tree =>
    match tree with
    | .string _ => .ok tree
    | tree => refuse .string tree
  | .any, tree => readAny tree
  | .optional inner, tree =>
    match tree with
    | .null => .ok .null
    | tree => read inner tree
  | .list item, tree =>
    match tree with
    | .array items => return .array (← items.mapM (read item))
    | tree => refuse (.list item) tree
  | .map item, tree =>
    match tree with
    | .object members =>
      return .object (← members.mapM fun entry => return (entry.1, ← read item entry.2))
    | tree => refuse (.map item) tree
  | .tuple schemas, tree =>
    match tree with
    | .array items => do
      let received ← readItems schemas items
      if received.length = items.length ∧ received.length = schemas.length then
        return .array received
      else .error (lengthComplaint schemas.length items.length (tuple schemas).expected)
    | tree => refuse (.tuple schemas) tree
  | .record name fields, tree =>
    match tree with
    | .array items => do
      let received ← readFields fields items
      if received.length = items.length ∧ received.length = fields.length then
        return .object received
      else
        .error (lengthComplaint fields.length items.length
          s!"struct {name} with {fields.length} elements")
    | .object members => do
      let received ← collect (outcomes fields members) members
      return .object (← arrange received fields)
    | tree => refuse (.record name fields) tree

/-- What is held of items by position, as far as there are items. -/
def readItems : List Schema → List Json → Except Json.Complaint (List Json)
  | schema :: schemas, item :: items => do
    let item ← read schema item
    return item :: (← readItems schemas items)
  | _, _ => .ok []

/-- What is held of the items of a record without names, as far as there are items. -/
def readFields : List (String × Schema) → List Json → Except Json.Complaint (List (String × Json))
  | (name, schema) :: fields, item :: items => do
    let item ← read schema item
    return (name, item) :: (← readFields fields items)
  | _, _ => .ok []

/-- What becomes of each field that has a member. -/
def outcomes : List (String × Schema) → List (String × Json) →
    List (String × Except Json.Complaint Json)
  | [], _ => []
  | (name, schema) :: fields, members =>
    match members.lookup name with
    | some item => (name, read schema item) :: outcomes fields members
    | none => outcomes fields members

end

end Schema
end Interchange
