import Interchange.Op
import Interchange.Library

/-!
# Registries of modules

A registry knows modules by name before they exist. The first load of a name that succeeds builds
its module and freezes its members; from then on the name stands for that module. A load that fails
leaves the name as it was, and the next load tries again.
-/

namespace Interchange

/-- What is known under a name. The builder is told how often it was run before. -/
structure Registry.Entry where
  name : String
  build : Nat → Op Ref
  attempts : Nat := 0
  loaded : Option Ref := none

/-- The entries in the order of registration. -/
structure Registry where
  entries : List Registry.Entry := []

namespace Registry

def empty : Registry := {}

def find? (registry : Registry) (name : String) : Option Entry :=
  registry.entries.find? fun entry => entry.name == name

/-- The registered names, in order. -/
def names (registry : Registry) : List String := registry.entries.map Entry.name

def isLoaded (registry : Registry) (name : String) : Bool :=
  (registry.find? name).any fun entry => entry.loaded.isSome

/-- Adds a name that is not taken. -/
def register (registry : Registry) (name : String) (build : Nat → Op Ref) :
    Except Fault Registry :=
  if (registry.find? name).isSome then .error (.duplicateModule name)
  else .ok ⟨registry.entries ++ [{ name := name, build := build }]⟩

/-- Replaces the entry of a name. -/
def update (registry : Registry) (name : String) (change : Entry → Entry) : Registry :=
  ⟨registry.entries.map fun entry => if entry.name == name then change entry else entry⟩

/-- The module of a name, built at need. The registry keeps count of the attempts. -/
def load (registry : Registry) (name : String) (store : Store) :
    (Except Fault Ref × Registry) × Store :=
  match registry.find? name with
  | none => ((.error (.moduleNotFound name), registry), store)
  | some entry =>
    match entry.loaded with
    | some module => ((.ok module, registry), store)
    | none =>
      let tried := registry.update name fun entry => { entry with attempts := entry.attempts + 1 }
      match (entry.build entry.attempts).runOn store with
      | (.error fault, store) => ((.error fault, tried), store)
      | (.ok module, store) =>
        let kept := tried.update name fun entry => { entry with loaded := some module }
        ((.ok module, kept), store.freeze (.object module))

/-- The registry of the library modules. -/
def library : Registry :=
  ⟨LibraryFunction.modules.map fun entry =>
    { name := entry.1, build := fun _ => Op.newLibraryModule entry.1 entry.2 }⟩

end Registry
end Interchange
