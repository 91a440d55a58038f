import Interchange.Call
import Interchange.Script.Datum
import Interchange.Script.Literal

/-!
# Script sessions

A session is a store, a script heap beside it, and the script's globals. A computation in a session
may stop: with a fault of an operation on the store, with a value that the script throws, or with a
fault of the engine that runs the script. Faults inside a function that a script calls reach the
script as thrown errors.
-/

namespace Interchange.Script

/-- A function of the script heap. -/
inductive Function where
  /-- A function in a cell of the store. -/
  | host (function : Ref)
  /-- A method of the shared mapping in a cell of the store. -/
  | method (mapping : Ref) (method : MappingMethod)
  | body (body : Body)

/-- What an object is. -/
inductive Nature where
  /-- Elements; a place where there is none reads as what the prototype has there. -/
  | array (items : List (Option Datum))
  | record
  | function (function : Function)
  | error (message : Option WideString)
  /-- The object whose properties are the globals. -/
  | globals

/-- An object: what it is, where it takes properties from that it does not have, and the properties
that were written. -/
structure Object where
  nature : Nature
  prototype : Datum
  properties : List (WideString × Datum) := []

namespace Object

def ofItems (items : List Datum) : Object :=
  { nature := .array (items.map some), prototype := .builtin .arrayPrototype }

def ofProperties (properties : List (WideString × Datum)) : Object :=
  { nature := .record, prototype := .builtin .recordPrototype, properties }

def ofFunction (function : Function) : Object :=
  { nature := .function function, prototype := .builtin .functionPrototype }

def ofMessage (message : Option WideString) : Object :=
  { nature := .error message, prototype := .builtin .errorPrototype }

/-- The globals to begin with. -/
def initialGlobals : Object :=
  { nature := .globals, prototype := .builtin .recordPrototype }

end Object

structure Session where
  store : Store := {}
  heap : Array Object := #[]
  globals : Object := .initialGlobals

/-- What the engine finds wrong on its own account. -/
inductive EngineFault where
  /-- An argument or a global is of another kind than is wanted. -/
  | conversion (found wanted : String)
  | tooFew (given wanted : Nat)
  /-- A step of the embedding side made the engine throw. -/
  | exception
  /-- A surrogate that is part of no pair stands behind so many bytes of a string. -/
  | illFormed (index : Nat)
deriving DecidableEq, Repr

def EngineFault.message : EngineFault → String
  | conversion found wanted =>
    s!"Error converting from js '{found}' into type '{wanted}'"
  | tooFew given wanted =>
    s!"Error calling function with {given} argument(s) while {wanted} where expected"
  | exception => "Exception generated by QuickJS"
  | illFormed index =>
    s!"Conversion from string failed: invalid utf-8 sequence of 1 bytes from index {index}"

/-- The words for a fault of the engine that nothing caught. -/
def EngineFault.engineText (fault : EngineFault) : String :=
  "script engine error: " ++ fault.message

/-- The words for a thrown value with this text that nothing caught. -/
def uncaughtText (text : String) : String := "uncaught exception: " ++ text

/-- Why a computation in a session stops. -/
inductive Stop where
  | fault (fault : Fault)
  | thrown (value : Datum)
  | engine (fault : EngineFault)
  /-- A script threw and nothing caught it. -/
  | uncaught (text : String)

abbrev Run := ExceptT Stop (StateM Session)

namespace Run

/-- Runs a computation in a session. -/
def runIn {α : Type} (run : Run α) (session : Session) : Except Stop α × Session :=
  ExceptT.run run session

/-- An operation on the session's store. -/
def onStore {α : Type} (op : Op α) : Run α := do
  let session ← get
  let (result, store) := op.runOn session.store
  set { session with store := store }
  match result with
  | .ok a => return a
  | .error fault => throw (.fault fault)

/-- A new object. -/
def alloc (object : Object) : Run Datum :=
  modifyGet fun session =>
    (.object ⟨session.heap.size⟩, { session with heap := session.heap.push object })

/-- The object at a place; one that was never allocated reads as an empty record. -/
def read (place : Place) : Run Object := do
  return (← get).heap.getD place.index (.ofProperties [])

def write (place : Place) (object : Object) : Run Unit :=
  modify fun session =>
    { session with heap := session.heap.setIfInBounds place.index object }

/-- Throws a new error. -/
def raise {α : Type} (message : WideString) : Run α := do
  throw (.thrown (← alloc (.ofMessage (some message))))

/-- The text of a string, as the embedding side reads it. -/
def readText : WideString → Run String
  | .text text => return text
  | .broken units => throw (.engine (.illFormed (WideString.soundBytes units.1)))

section Running

variable {α β : Type} {run : Run α} {next : α → Run β} {s t : Session}

theorem runIn_get : (get : Run Session).runIn s = (.ok s, s) := rfl

theorem runIn_modify (f : Session → Session) : (modify f : Run PUnit).runIn s = (.ok ⟨⟩, f s) := rfl

theorem runIn_bind : (run >>= next).runIn s = match run.runIn s with
    | (.ok a, t) => (next a).runIn t
    | (.error stop, t) => (.error stop, t) := by
  change (StateT.bind (m := Id) run (ExceptT.bindCont next)) s = _
  unfold StateT.bind
  rcases h : run.runIn s with ⟨_ | _, t⟩
  all_goals
    change run s = _ at h
    rw [h]
    rfl

theorem runIn_bind_of_ok {a : α} (first : run.runIn s = (.ok a, t)) :
    (run >>= next).runIn s = (next a).runIn t := by
  rw [runIn_bind, first]

theorem runIn_bind_of_error {stop : Stop} (first : run.runIn s = (.error stop, t)) :
    (run >>= next).runIn s = (.error stop, t) := by
  rw [runIn_bind, first]

/-- A computation in two steps that succeeds has succeeded at both. -/
theorem steps_of_bind {b : β} (h : (run >>= next).runIn s = (.ok b, t)) :
    ∃ a u, run.runIn s = (.ok a, u) ∧ (next a).runIn u = (.ok b, t) := by
  rw [runIn_bind] at h
  rcases first : run.runIn s with ⟨stop | a, u⟩
  · rw [first] at h
    cases h
  · rw [first] at h
    exact ⟨a, u, rfl, h⟩

theorem runIn_tryCatch (handle : Stop → Run α) :
    (tryCatch run handle).runIn s = match run.runIn s with
      | (.ok a, t) => (.ok a, t)
      | (.error stop, t) => (handle stop).runIn t := by
  simp only [tryCatch, tryCatchThe, MonadExceptOf.tryCatch, ExceptT.tryCatch, runIn, ExceptT.run,
    ExceptT.mk, bind, StateT.bind]
  cases run s with
  | mk result t => cases result <;> rfl

theorem runIn_onStore (op : Op α) : (onStore op).runIn s =
    (match (op.runOn s.store).1 with
      | .ok a => .ok a
      | .error fault => .error (.fault fault), { s with store := (op.runOn s.store).2 }) := by
  rcases h : op.runOn s.store with ⟨_ | _, t⟩
  all_goals
    unfold onStore
    simp [runIn_bind, runIn_get, h]
    rfl

theorem runOn_of_onStore {op : Op α} {a : α} (h : (onStore op).runIn s = (.ok a, t)) :
    op.runOn s.store = (.ok a, t.store) := by
  rw [runIn_onStore] at h
  rcases ran : op.runOn s.store with ⟨_ | _, _⟩
  · rw [ran] at h
    cases h
  · rw [ran] at h
    cases h
    rfl

end Running

end Run

/-! ## Words for kinds -/

/-- The kind of an object in faults of conversions. -/
def Nature.kind : Nature → String
  | array _ => "array"
  | record => "object"
  | function _ => "function"
  | error _ => "unknown"
  | globals => "object"

/-- The kind of an object that every session begins with. -/
def Builtin.kind : Builtin → String
  | globals => "object"
  | recordPrototype => "object"
  | arrayPrototype => "array"
  | functionPrototype => "function"
  | errorPrototype => "object"
  | library => "object"
  | function _ => "function"

/-- The kind of a value in faults of conversions. -/
def kindOf : Datum → Run String
  | .undefined => return "undefined"
  | .null => return "null"
  | .bool _ => return "boolean"
  | .number _ => return "number"
  | .string _ => return "string"
  | .bigint _ => return "bigint"
  | .symbol => return "symbol"
  | .object place => return (← Run.read place).nature.kind
  | .builtin b => return b.kind

/-- The engine's own word for the kind of a value. -/
def engineKind : Datum → Run String
  | .bool _ => return "bool"
  | .number x => return if (int32? x).isSome then "int" else "float"
  | .bigint _ => return "big_int"
  | .object place => do
    match (← Run.read place).nature with
    | .error _ => return "exception"
    | nature => return nature.kind
  | d => kindOf d

/-- Can a value be called? -/
def isFunction (d : Datum) : Run Bool := do
  match d with
  | .object place =>
    match (← Run.read place).nature with
    | .function _ => return true
    | _ => return false
  | .builtin (.function _) => return true
  | .builtin .functionPrototype => return true
  | _ => return false

end Interchange.Script
