import Interchange.Op

/-!
# Attributes

Records, modules, shared mappings and some extensions have named attributes. A mapping's
attributes are its methods, bound to it.
-/

namespace Interchange

namespace Method

/-- All methods, by name in ascending order. -/
def all : List Method :=
  [clear, fromJson, get, items, keys, size, perform, pop, setDefault, toDict, toJson, update,
    values]

def name : Method → String
  | clear => "clear"
  | fromJson => "from_json"
  | get => "get"
  | items => "items"
  | keys => "keys"
  | size => "len"
  | perform => "perform"
  | pop => "pop"
  | setDefault => "setdefault"
  | toDict => "to_dict"
  | toJson => "to_json"
  | update => "update"
  | values => "values"

def ofName? (name : String) : Option Method := all.find? fun method => method.name == name

end Method

namespace Op

/-- A method of the mapping in a cell, as a new function. -/
def bind (mapping : Ref) (mappingName : String) (method : Method) : Op Value :=
  new (.function
    { name := mappingName ++ "." ++ method.name, routine := .method mapping method })

/-- The attribute of an extension. -/
def extensionAttribute? (attributes : Attributes) (name : String) : Op (Option Value) :=
  match attributes.failure with
  | some message => throw (.custom message)
  | none => return attributes.values.lookup name

/-- The attribute of a value under a name, if it has one. -/
def attributeOf? (v : Value) (name : String) : Op (Option Value) := do
  match v with
  | .object ref =>
    match ← cell ref with
    | .record _ fields => return fields.lookup name
    | .module _ members => return members.lookup name
    | .mapping mappingName _ _ =>
      match Method.ofName? name with
      | some method => return some (← bind ref mappingName method)
      | none => return none
    | .extension { attributes := some attributes, .. } => extensionAttribute? attributes name
    | _ => return none
  | _ => return none

/-- The attribute of a value under a name. -/
def attributeOf (v : Value) (name : String) : Op Value := do
  match ← attributeOf? v name with
  | some found => return found
  | none => throw (.noAttribute ((← get).typeName v) name)

end Op

namespace Store

/-- The names of a value's attributes; `none` when it can have none. -/
def attributeNames? (store : Store) (v : Value) : Option (List String) :=
  match store.cellOf? v with
  | some (.record _ fields) => some (fields.map Prod.fst)
  | some (.module _ members) => some (members.map Prod.fst)
  | some (.mapping _ _ _) => some (Method.all.map Method.name)
  | some (.extension { attributes := some attributes, .. }) =>
    some (attributes.values.map Prod.fst ++ attributes.ghosts)
  | _ => none

end Store
end Interchange
