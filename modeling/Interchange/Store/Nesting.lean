import Interchange.Fault
import Interchange.Store

/-!
# Shared mappings inside values

A shared mapping may not hold another one, at any depth. The search goes through containers from
left to right and looks into each of them once.
-/

namespace Interchange.Store

/-- Searches values from left to right, handing on what has been visited. -/
def searchEach (search : List Ref → Value → Option String × List Ref) :
    List Ref → List Value → Option String × List Ref
  | visited, [] => (none, visited)
  | visited, v :: rest =>
    match search visited v with
    | (some name, visited) => (some name, visited)
    | (none, visited) => searchEach search visited rest

/-- The name of the first shared mapping that a value leads to, by a search of a bounded depth that
passes over visited cells. Every level of the search visits another cell. -/
def findMappingWithin (store : Store) : Nat → List Ref → Value → Option String × List Ref
  | depth + 1, visited, .object ref =>
    match store.cell ref with
    | .mapping name _ _ => (some name, visited)
    | cell =>
      if visited.contains ref then (none, visited)
      else searchEach (findMappingWithin store depth) (ref :: visited) cell.parts
  | _, visited, _ => (none, visited)

/-- The name of the first shared mapping that a value leads to. -/
def findMapping? (store : Store) (v : Value) : Option String :=
  (store.findMappingWithin (store.size + 1) [] v).1

/-- Passes a value that leads to no shared mapping. -/
def checkStorable (store : Store) (op : String) (v : Value) : Except Fault Unit :=
  match store.findMapping? v with
  | some name => .error (.unsupported op name)
  | none => .ok ()

end Interchange.Store
