import Interchange.LogFilter
import Interchange.Registry
import Interchange.Script.Evaluation
import Interchange.Settings

/-!
# Runs

A run reads its settings, checks what it is to log, fills a shared mapping, runs the scripts on it
one after the other, each in a session of its own, and prints the mapping as JSON. The first script
that fails ends the run.
-/

namespace Interchange

/-- What a run leaves behind. -/
structure Outcome where
  status : Nat
  output : String
  errors : String
deriving DecidableEq, Repr

/-- What a run finds around it. -/
structure Surroundings where
  /-- The text of a settings file. -/
  file : String → Except FileFault String
  /-- The statements of a script file. -/
  script : String → Except FileFault (List Script.Statement)

namespace Script

/-- The report of what stops a script. -/
def Stop.report : Stop → Report
  | .fault f => .ofFault f
  | .engine b => ⟨b.engineText, [b.message]⟩
  | .uncaught text => ⟨uncaughtText text, []⟩
  | .thrown _ => ⟨uncaughtText "", []⟩

/-- The report of a script file that cannot be read. -/
def unreadScript (path : String) (fault : FileFault) : Report :=
  ⟨"failed to read script " ++ path ++ ": " ++ fault.message, [fault.message]⟩

end Script

namespace CommandLine

/-- Calls of the global object of this name are what scripts consist of, unless told otherwise. -/
def defaultObject : String := Mapping.defaultName

/-- A computation in a session, reported. -/
def reported {α : Type} (run : Script.Run α) (session : Script.Session) :
    Except Report α × Script.Session :=
  match run.runIn session with
  | (.ok a, session) => (.ok a, session)
  | (.error stop, session) => (.error stop.report, session)

/-- Loads modules and makes them global. -/
def installModules : Registry → List String → Script.Session →
    (Except Report Unit × Registry) × Script.Session
  | registry, [], session => ((.ok (), registry), session)
  | registry, name :: names, session =>
    let ((loaded, registry), store) := registry.load name session.store
    let session := { session with store := store }
    match loaded with
    | .error fault => ((.error (.ofFault fault), registry), session)
    | .ok module =>
      match reported (Script.installModule module) session with
      | (.ok (), session) => installModules registry names session
      | (.error report, session) => ((.error report, registry), session)

/-- Runs the statements of a script and then its entry function. -/
def runStatements (object : String) (entry : Option String) (statements : List Script.Statement) :
    Script.Run Unit := do
  Script.executeAll object statements
  match entry with
  | some name => do
    let _ ← Script.callGlobal name []
    return ()
  | none => return ()

/-- Runs one script on a store in a new session. -/
def runScript (object : String) (settings : Settings) (surroundings : Surroundings)
    (mapping : Ref) (path : String) (registry : Registry) (store : Store) :
    (Except Report Unit × Registry) × Store :=
  let names := if settings.modules.isEmpty then registry.names else settings.modules
  match reported (Script.installMapping settings.shared.name mapping) { store := store } with
  | (.error report, session) => ((.error report, registry), session.store)
  | (.ok (), session) =>
    match installModules registry names session with
    | ((.error report, registry), session) => ((.error report, registry), session.store)
    | ((.ok (), registry), session) =>
      match surroundings.script path with
      | .error fault => ((.error (Script.unreadScript path fault), registry), session.store)
      | .ok statements =>
        let (result, session) :=
          reported (runStatements object settings.entryFunction statements) session
        ((result, registry), session.store)

/-- Runs scripts one after the other, up to the first that fails. -/
def runScripts (object : String) (settings : Settings) (surroundings : Surroundings)
    (mapping : Ref) : List String → Registry → Store → Except Report Unit × Store
  | [], _, store => (.ok (), store)
  | path :: paths, registry, store =>
    match runScript object settings surroundings mapping path registry store with
    | ((.error report, _), store) => (.error (report.within ("running " ++ path)), store)
    | ((.ok (), registry), store) =>
      runScripts object settings surroundings mapping paths registry store

/-- The shared mapping to begin with. -/
def prepare (settings : SharedSettings) : Op Ref := do
  let dict ← Dict.alloc
  let mapping ← Op.alloc (.mapping settings.name dict false)
  match settings.initialJson with
  | some text => Mapping.loadJson mapping text
  | none => pure ()
  return mapping

/-- The JSON text of the mapping in the end. -/
def conclude (settings : SharedSettings) (mapping : Ref) : Op String := do
  if settings.freezeAfterRun then Op.freeze (.object mapping)
  let copy ← Mapping.cloneDict mapping
  Op.ofExcept ((← get).toJsonPretty 2 copy)

/-- Runs what the settings say, and answers the text to print. -/
def runSettings (object : String) (settings : Settings) (surroundings : Surroundings)
    (store : Store) : Except Report String :=
  match (prepare settings.shared).runOn store with
  | (.error fault, _) => .error ((Report.ofFault fault).within "loading initial shared state")
  | (.ok mapping, store) =>
    match runScripts object settings surroundings mapping settings.scripts .library store with
    | (.error report, _) => .error report
    | (.ok (), store) =>
      match (conclude settings.shared mapping).runOn store with
      | (.ok text, _) => .ok text
      | (.error fault, _) => .error (.ofFault fault)

/-- A whole run. -/
def run (object : String) (surroundings : Surroundings) (args : List String) (store : Store) :
    Outcome :=
  let result : Except Report String := do
    let settings ← Settings.ofArguments surroundings.file args
    (LogFilter.check settings.logLevel).mapError LogFilter.Problem.report
    runSettings object settings surroundings store
  match result with
  | .ok text => ⟨0, text ++ "\n", ""⟩
  | .error report => ⟨1, "", report.text⟩

end CommandLine
end Interchange
