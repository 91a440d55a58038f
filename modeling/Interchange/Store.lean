import Interchange.HostValue

/-!
# The store

Everything with an identity is a cell of a store: containers, functions, shared mappings, and what
the embedding side adds of its own. A mutation replaces a cell; nothing is ever removed.
-/

namespace Interchange

/-- A step of a routine that works on a dict. -/
inductive Edit where
  | insert (key value : Value)
  /-- Enters the dict into itself. -/
  | insertSelf (key : Value)
  | remove (key : Value)
  | lookup (key : Value)
  | clear
  | size
  | freeze
  | display
  /-- Adds one to the integer under the key; nothing counts as zero. -/
  | increment (key : Value)
  | unknown (word : String)
deriving Repr

/-- The methods of a shared mapping. -/
inductive Method where
  | clear
  | fromJson
  | get
  | items
  | keys
  | size
  | perform
  | pop
  | setDefault
  | toDict
  | toJson
  | update
  | values
deriving DecidableEq, Repr

/-- The functions of the library modules. -/
inductive LibraryFunction where
  | encode
  | decode
  | sum
  | truncate
  | byteLength
  | now
deriving DecidableEq, Repr

/-- What a function does. -/
inductive Routine where
  /-- Answers always the same value. -/
  | constant (value : Value)
  | failure (message : String)
  /-- Answers the argument at an index, or nothing. -/
  | argument (index : Nat)
  /-- Answers a new list of the arguments. -/
  | gather
  /-- Runs the edits on the dict that is the first argument, and answers a list of their
  results. -/
  | edits (steps : List Edit)
  | library (function : LibraryFunction)
  /-- A method bound to the shared mapping in a cell. -/
  | method (mapping : Ref) (method : Method)
deriving Repr

structure Function where
  name : String
  typeName : String := "builtin_function_or_method"
  routine : Routine
deriving Repr

/-- The attributes of an extension. -/
structure Attributes where
  values : List (String × Value)
  /-- Names that are listed but have no value. -/
  ghosts : List String
  /-- Every look-up fails with this message. -/
  failure : Option String
deriving Repr

/-- A value of a kind that the embedding side defines. -/
structure Extension where
  typeName : String
  display : String
  truth : Bool
  hashable : Bool
  attributes : Option Attributes
  /-- What the value, or a record that it tags, becomes on the host side, or why it does not. -/
  departure : Option (Except String HostValue)
  /-- A value whose display stands for this one's. -/
  contents : Option Value

inductive Cell where
  | list (items : List Value) (frozen : Bool)
  | tuple (items : List Value)
  | set (items : List Value) (frozen : Bool)
  | dict (entries : List (Value × Value)) (frozen : Bool)
  /-- Named fields under a constructor, a value that tags them. -/
  | record (tag : Value) (fields : List (String × Value))
  | module (name : String) (members : List (String × Value))
  | function (function : Function)
  /-- A named mapping over the dict in another cell. -/
  | mapping (name : String) (dict : Ref) (frozen : Bool)
  | extension (extension : Extension)
  | proxy (native : Native)

/-- The keys and values of entries, in order. -/
def entryParts (entries : List (Value × Value)) : List Value :=
  entries.flatMap fun entry => [entry.1, entry.2]

theorem entryParts_cons (entry : Value × Value) (rest : List (Value × Value)) :
    entryParts (entry :: rest) = entry.1 :: entry.2 :: entryParts rest := rfl

/-- What a container holds, in order: elements, keys and values, the tag and the fields of a record,
the members of a module. Other cells are not looked into. -/
def Cell.parts : Cell → List Value
  | list items _ => items
  | tuple items => items
  | set items _ => items
  | dict entries _ => entryParts entries
  | record tag fields => tag :: fields.map Prod.snd
  | module _ members => members.map Prod.snd
  | _ => []

structure Store where
  cells : Array Cell := #[]
  /-- The time that is told when it is asked for. -/
  clock : Instant := ⟨0, 0⟩
  /-- The length of the longest run of bytes that the memory has room for. As a rule this is less than
  the half of the addresses of 48 bits that a program has. -/
  room : Nat := 0x7FFFFFFFFFFF

namespace Store

def empty : Store := {}

/-- The length of the longest run of bytes there may be, whatever room there is: that of the greatest
64-bit integer. -/
def maxLength : Nat := 0x7FFFFFFFFFFFFFFF

/-- Is there room for a run of bytes? -/
def hasRoom (store : Store) (length : Nat) : Bool :=
  decide (length ≤ maxLength) && decide (length ≤ store.room)

/-- The number of cells. -/
def size (store : Store) : Nat := store.cells.size

/-- The cell at a reference; one that was never allocated reads as an empty tuple. -/
def cell (store : Store) (ref : Ref) : Cell := store.cells.getD ref.index (.tuple [])

/-- The store with one more cell, and the reference to it. -/
def alloc (store : Store) (cell : Cell) : Ref × Store :=
  (⟨store.cells.size⟩, { store with cells := store.cells.push cell })

/-- The store with a cell replaced. -/
def write (store : Store) (ref : Ref) (cell : Cell) : Store :=
  { store with cells := store.cells.setIfInBounds ref.index cell }

/-- The cell of a value, if it has one. -/
def cellOf? (store : Store) : Value → Option Cell
  | .object ref => some (store.cell ref)
  | _ => none

@[simp]
theorem size_write (store : Store) (ref : Ref) (cell : Cell) :
    (store.write ref cell).size = store.size := by
  simp [write, size]

@[simp]
theorem size_alloc (store : Store) (cell : Cell) : (store.alloc cell).2.size = store.size + 1 := by
  simp [alloc, size]

theorem cell_write_self (store : Store) {ref : Ref} (cell : Cell) (h : ref.index < store.size) :
    (store.write ref cell).cell ref = cell := by
  simp only [size] at h
  simp [write, Store.cell, Array.getD_eq_getD_getElem?, h]

theorem cell_write_other (store : Store) {ref other : Ref} (cell : Cell) (h : ref ≠ other) :
    (store.write ref cell).cell other = store.cell other := by
  have : ref.index ≠ other.index := fun e => h (by cases ref; cases other; simp_all)
  simp [write, Store.cell, Array.getD_eq_getD_getElem?, Array.getElem?_setIfInBounds_ne this]

theorem cell_alloc_self (store : Store) (cell : Cell) :
    (store.alloc cell).2.cell (store.alloc cell).1 = cell := by
  simp [alloc, Store.cell, Array.getD_eq_getD_getElem?]

theorem cell_alloc_other (store : Store) (cell : Cell) {ref : Ref} (h : ref.index < store.size) :
    (store.alloc cell).2.cell ref = store.cell ref := by
  simp only [size] at h
  simp [alloc, Store.cell, Array.getD_eq_getD_getElem?, Array.getElem?_push, h, Nat.ne_of_lt h]

/-- The cells after an allocation are the old ones and the new one. -/
theorem lt_size_or_eq_of_alloc {store : Store} {cell : Cell} {ref : Ref}
    (h : ref.index < (store.alloc cell).2.size) :
    ref.index < store.size ∨ ref = (store.alloc cell).1 := by
  rw [size_alloc] at h
  rcases Nat.lt_succ_iff_lt_or_eq.1 h with old | new
  · exact .inl old
  · right
    cases ref
    exact congrArg Ref.mk new

/-- A cell that was never allocated reads as an empty tuple. -/
theorem cell_of_size_le {store : Store} {ref : Ref} (h : store.size ≤ ref.index) :
    store.cell ref = .tuple [] := by
  simp only [size] at h
  simp [cell, Array.getD_eq_getD_getElem?, h]

/-- Nothing is written to a cell that was never allocated. -/
theorem write_of_size_le {store : Store} {ref : Ref} (h : store.size ≤ ref.index) (cell : Cell) :
    store.write ref cell = store := by
  simp only [size] at h
  simp [write, Array.setIfInBounds, Nat.not_lt.2 h]

end Store
end Interchange
