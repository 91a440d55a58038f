import Interchange.Files
import Interchange.Json.Receiving
import Interchange.Mapping
import Interchange.Report

/-!
# Settings

What a run is told: the shared mapping, the scripts, the modules they get. Settings come from a
JSON file, in which everything may be left out, and from the arguments, which begin with the name
of that file if it ends in `.json` and name further scripts.
-/

namespace Interchange

/-- Settings of the shared mapping. -/
structure SharedSettings where
  /-- The global name of the mapping. -/
  name : String := Mapping.defaultName
  /-- A JSON object with the entries to begin with. -/
  initialJson : Option String := none
  freezeAfterRun : Bool := false
deriving DecidableEq, Repr

structure Settings where
  logLevel : String := "info"
  shared : SharedSettings := {}
  scripts : List String := []
  /-- The global function that is called after each script. -/
  entryFunction : Option String := none
  /-- The library modules that scripts get; none means all. -/
  modules : List String := []
  workers : Nat := 0
deriving DecidableEq, Repr

open Json in
/-- The fields of the settings of the shared mapping. -/
def SharedSettings.fields : List (FieldReader SharedSettings) :=
  [.of "name" (receiveText "a string") fun name settings => { settings with name },
    .of "initial_json" (receiveOptionalText "a string") fun initialJson settings =>
      { settings with initialJson },
    .of "freeze_after_run" receiveBool fun freezeAfterRun settings =>
      { settings with freezeAfterRun }]

namespace Settings

open Json in
/-- The fields of the settings. -/
def fields : List (FieldReader Settings) :=
  [.of "log_level" (receiveText "a string") fun logLevel settings => { settings with logLevel },
    .of "shared" (receiveRecord "SharedSettings" SharedSettings.fields {}) fun shared settings =>
      { settings with shared },
    .of "scripts" (receiveList (receiveText "path string")) fun scripts settings =>
      { settings with scripts },
    .of "entry_function" (receiveOptionalText "a string") fun entryFunction settings =>
      { settings with entryFunction },
    .of "modules" (receiveList (receiveText "a string")) fun modules settings =>
      { settings with modules },
    .of "workers" (receiveCount "usize") fun workers settings => { settings with workers }]

/-- The settings of a text. -/
def parse (text : String) : Except Json.Fault Settings :=
  Json.whole (Json.receiveRecord "RuntimeConfig" fields {}) text.toList

/-- The settings of a file, whose text can be read or not. -/
def load (path : String) (content : Except FileFault String) : Except Report Settings :=
  match content with
  | .error fault => .error ⟨"reading config " ++ path, [fault.message]⟩
  | .ok text =>
    match parse text with
    | .ok settings => .ok settings
    | .error fault => .error ⟨"parsing config " ++ path, [fault.text]⟩

/-- The settings of the arguments of a run, given the texts of files. -/
def ofArguments (file : String → Except FileFault String) (args : List String) :
    Except Report Settings :=
  match args with
  | first :: rest =>
    if first.endsWith ".json" then do
      let settings ← load first (file first)
      return { settings with scripts := settings.scripts ++ rest }
    else .ok { scripts := first :: rest }
  | [] => .ok {}

/-- A text that may be left out. -/
def optionalText (text : Option String) : Json :=
  match text with
  | some text => .string text
  | none => .null

/-- The settings as a tree. -/
def toJson (settings : Settings) : Json :=
  .object [("log_level", .string settings.logLevel),
    ("shared", .object [("name", .string settings.shared.name),
      ("initial_json", optionalText settings.shared.initialJson),
      ("freeze_after_run", .bool settings.shared.freezeAfterRun)]),
    ("scripts", .array (settings.scripts.map .string)),
    ("entry_function", optionalText settings.entryFunction),
    ("modules", .array (settings.modules.map .string)),
    ("workers", .ofInt settings.workers)]

end Settings
end Interchange
