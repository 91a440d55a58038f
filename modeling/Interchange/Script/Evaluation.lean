import Interchange.Script.Crossing
import Interchange.Script.Standard

/-!
# Running scripts

Literals make values, functions are called, statements run one after the other. Calls within calls
go to a fixed depth. A function of the embedding side that a script calls turns its faults into
errors that the script can see; what is thrown and not caught ends the run with its text.
-/

namespace Interchange.Script

/-! ## Literals -/

mutual

/-- Makes the value of a literal. -/
def evaluate (call : Caller) : Literal → Run Datum
  | .undefined => return .undefined
  | .null => return .null
  | .bool b => return .bool b
  | .number x => return .number x
  | .string s => return .string s
  | .bigint i => return .bigint i
  | .symbol => return .symbol
  | .array items => do Run.alloc (.ofItems (← evaluateItems call items))
  | .record properties => do
    let entries ← evaluateProperties call properties
    Run.alloc (.ofProperties (entries.foldl (fun found e => setProperty e.1 e.2 found) []))
  | .function => Run.alloc (.ofFunction (.body (.returns .undefined)))
  | .error message => do
    match ← evaluate call message with
    | .undefined => Run.alloc (.ofMessage none)
    | d => do Run.alloc (.ofMessage (some (← textOf call d)))
  | .cyclicArray => do
    let place := ⟨(← get).heap.size⟩
    Run.alloc (.ofItems [.object place])
  | .cyclicRecord => do
    let place := ⟨(← get).heap.size⟩
    Run.alloc (.ofProperties [("self", .object place)])

def evaluateItems (call : Caller) : List Literal → Run (List Datum)
  | [] => return []
  | item :: rest => do
    let d ← evaluate call item
    return d :: (← evaluateItems call rest)

def evaluateProperties (call : Caller) :
    List (WideString × Literal) → Run (List (WideString × Datum))
  | [] => return []
  | (name, item) :: rest => do
    let d ← evaluate call item
    return (name, d) :: (← evaluateProperties call rest)

end

/-! ## Functions of scripts -/

/-- Runs the body of a function of a script. -/
def runBody (call : Caller) (args : List Datum) : Body → Run Datum
  | .returns value => evaluate call value
  | .argument index => return args.getD index .undefined
  | .throws value => do throw (.thrown (← evaluate call value))
  | .assigns properties => do
    let target := args.headD .undefined
    properties.forM fun property => do
      if target.isNullish then Run.raise "value has no property"
      let d ← evaluate call property.2
      assign call target property.1 d
    return target
  | .gathers => Run.alloc (.ofItems args)

/-! ## What stops a run -/

/-- The text of a thrown value: the message of an error, if it is well-formed, the display of any
other value that has a value of its own, and else its kind. -/
def thrownText (d : Datum) : Run String := do
  let plain : Run String := do
    let kind ← kindOf d
    tryCatch (do Run.onStore (Op.text (← toValue d))) fun _ => return kind
  match d with
  | .object place =>
    match (← Run.read place).nature with
    | .error none => return ""
    | .error (some message) => tryCatch (Run.readText message) fun _ => return ""
    | _ => plain
  | _ => plain

/-- The words for what stops a run. -/
def stopText : Stop → Run String
  | .fault fault => return fault.message
  | .engine fault => return fault.engineText
  | .uncaught text => return uncaughtText text
  | .thrown d => return uncaughtText (← thrownText d)

/-- A computation on whose behalf nothing is caught: what it throws ends it. -/
def catching {α : Type} (run : Run α) : Run α :=
  tryCatch run fun
    | .thrown d => do throw (.uncaught (← thrownText d))
    | stop => throw stop

/-- What a script sees of a fault is an error with its message, unless the fault ends the program. -/
def raiseFault {α : Type} (fault : Fault) : Run α :=
  if fault.isFinal then throw (.fault fault) else Run.raise fault.message

/-- A function of the embedding side, as a script sees it: what stops it is thrown as an error. -/
def shielded {α : Type} (run : Run α) : Run α :=
  tryCatch run fun
    | .thrown d => throw (.thrown d)
    | .fault fault => raiseFault fault
    | stop => do Run.raise (← stopText stop)

/-- The taking of arguments, as a script sees it: what the engine finds wrong is thrown in its own
words. -/
def binding {α : Type} (run : Run α) : Run α :=
  tryCatch run fun
    | .engine fault => Run.raise fault.message
    | stop => throw stop

/-! ## Methods of shared mappings -/

/-- A value that has to be a function. -/
def functionOf (d : Datum) : Run Datum := do
  if ← isFunction d then return d
  else throw (.engine (.conversion (← engineKind d) "function"))

/-- The string that a script value is. -/
def stringOf (d : Datum) : Run String := do
  match d with
  | .string s => Run.readText s
  | d => throw (.engine (.conversion (← engineKind d) "string"))

/-- A computation on whose behalf a function of the script is called: what that function throws
becomes a fault. -/
def faultOfThrown {α : Type} (run : Run α) : Run α :=
  tryCatch (catching run) fun stop => do
    match stop with
    | .fault fault => throw (.fault fault)
    | stop => throw (.fault (.custom (← stopText stop)))

/-- Calls a function with a copy of the entries and writes what it returns, if that is a dict. -/
def performOn (call : Caller) (dict : Ref) (function : Datum) : Run Datum := do
  let snapshot ← ofValue (.object dict)
  let returned ← faultOfThrown (call function .undefined [snapshot])
  let v ← toValue returned
  match (← get).store.cellOf? v with
  | some (.dict entries _) => Run.onStore (Mapping.merge dict "perform" entries)
  | _ => pure ()
  return returned

/-- Runs a method of a shared mapping. -/
def runMethod (call : Caller) (mapping : Ref) (method : MappingMethod) (args : List Datum) :
    Run Datum :=
  shielded do
    if args.length < method.needed then
      binding (throw (.engine (.tooFew args.length method.needed)))
    let first := args.headD .undefined
    match method with
    | .get => do
      let key ← toValue first
      let found ← Run.onStore (Mapping.get? mapping key)
      ofValue (found.getD .nothing)
    | .set => do
      let key ← toValue first
      let value ← toValue (args.getD 1 .undefined)
      Run.onStore (Mapping.setKey mapping key value)
      return .undefined
    | .has => do
      let key ← toValue first
      return .bool (← Run.onStore (Mapping.contains mapping key))
    | .size => return numberOfInt (← Run.onStore (Mapping.size mapping))
    | .keys => do
      let keys ← Run.onStore (do ValueList.new (← Mapping.keys mapping))
      ofValue keys
    | .toDict => do
      let copy ← Run.onStore (Mapping.cloneDict mapping)
      ofValue copy
    | .toJson => return .string (← Run.onStore (Mapping.toJson mapping))
    | .fromJson => do
      let text ← binding (stringOf first)
      Run.onStore (Mapping.loadJson mapping text)
      return .undefined
    | .freeze => do
      Run.onStore (Op.freeze (.object mapping))
      return .undefined
    | .perform => do
      let function ← binding (functionOf first)
      let state ← Run.onStore (Mapping.read mapping)
      performOn call state.dict function

/-! ## Calls -/

/-- Calls a function in the store. -/
def callHost (function : Ref) (args : List Datum) : Run Datum :=
  shielded do
    let args ← args.mapM toValue
    let v ← Run.onStore (Op.callRef function args)
    ofValue v

/-- How many calls may be under way at once. -/
def maxCalls : Nat := 100

/-- Calls a value on another, with so many calls left that may be under way. -/
def callWithin : Nat → Caller
  | 0, _, _, _ => Run.raise "stack overflow"
  | calls + 1, function, d, args => do
    match function with
    | .object place =>
      match (← Run.read place).nature with
      | .function (.host ref) => callHost ref args
      | .function (.method mapping method) => runMethod (callWithin calls) mapping method args
      | .function (.body body) => runBody (callWithin calls) args body
      | _ => Run.raise "not a function"
    | .builtin (.function f) => f.run (callWithin calls) d args
    | .builtin .functionPrototype => return .undefined
    | _ => Run.raise "not a function"

/-- Calls a value on another. -/
def call : Caller := callWithin maxCalls

/-- Makes the value of a literal outside of any call. -/
def Literal.value (literal : Literal) : Run Datum := evaluate call literal

/-! ## Statements -/

def evaluateArgument : Argument → Run Datum
  | .literal value => value.value
  | .function body => Run.alloc (.ofFunction (.body body))

/-- Calls a property of a value on it, or just reads it. -/
def useProperty (target : Datum) (name : String) (args : Option (List Argument)) :
    Run Datum := do
  let found ← property target name
  match args with
  | none => return found
  | some args => do
    let args ← args.mapM evaluateArgument
    call found target args

/-- Calls or reads a property of a global. -/
def useMember (object name : String) (args : Option (List Argument)) : Run Datum := do
  useProperty (← property (← global "globalThis") object) name args

/-- Runs a statement; calls go to the global object of the given name. -/
def execute (object : String) : Statement → Run Datum
  | .call name args => useMember object name (some args)
  | .throws value => do throw (.thrown (← value.value))
  | .main body => do
    let function ← Run.alloc (.ofFunction (.body body))
    setGlobal "main" function
    return .undefined

/-- Runs the statements of a script. -/
def executeAll (object : String) (statements : List Statement) : Run Unit :=
  catching (statements.forM fun statement => do let _ ← execute object statement)

/-- Runs one statement and answers its value. -/
def executeForValue (object : String) (statement : Statement) : Run Value := do
  let d ← catching (execute object statement)
  toValue d

/-! ## Globals -/

/-- Makes a shared mapping global. -/
def installMapping (name : String) (mapping : Ref) : Run Unit := do
  setGlobal name (← ofMapping mapping)

/-- Makes a module global, under its own name. -/
def installModule (ref : Ref) : Run Unit := do
  match (← get).store.cell ref with
  | .module name members => do
    setGlobal name (← recordOfNamed (ofValueWithin maxDepth) members)
  | _ => return ()

/-- Makes a function of the store global, under its own name. -/
def installFunction (ref : Ref) : Run Unit := do
  match (← get).store.cell ref with
  | .function function => do
    setGlobal function.name (← Run.alloc (.ofFunction (.host ref)))
  | _ => return ()

/-- Calls a global function with values. -/
def callGlobal (name : String) (args : List Value) : Run Value := do
  let function ← functionOf (← embedded (global name))
  let args ← args.mapM ofValue
  let d ← catching (call function .undefined args)
  toValue d

end Interchange.Script
