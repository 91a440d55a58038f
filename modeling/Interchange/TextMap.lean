/-!
# Maps from texts, in ascending order

An association list kept in ascending order of its names by code point, which is also the order
of their UTF-8 bytes. A later value for a name takes the place of an earlier one.
-/

namespace Interchange

/-- Entries in ascending order of their names. -/
abbrev TextMap (α : Type) := List (String × α)

namespace TextMap

variable {α : Type}

def insert (name : String) (value : α) : List (String × α) → List (String × α)
  | [] => [(name, value)]
  | (other, old) :: rest =>
    if name = other then (name, value) :: rest
    else if name < other then (name, value) :: (other, old) :: rest
    else (other, old) :: insert name value rest

/-- The map of a list of entries, the last of each name. -/
def ofList (entries : List (String × α)) : List (String × α) :=
  entries.foldl (fun map entry => insert entry.1 entry.2 map) []

end TextMap
end Interchange
