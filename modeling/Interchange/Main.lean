import Interchange.CommandLine
import Interchange.Script.Reading
import Std.Time.DateTime.Timestamp

/-!
# The program

Reads the files that a run asks for, runs it and prints what it leaves behind.
-/

namespace Interchange.CommandLine

/-- Why a file could not be read. -/
def faultOf : IO.Error → FileFault
  | .noFileOrDirectory .. => .missing
  | .inappropriateType _ code _ => if code = 21 then .isDirectory else .throughFile
  | .invalidArgument _ code _ => if code = 22 then .zeroCharacter else .longName
  | error => .other error.toString

/-- The texts of files, as far as they can be read. -/
def readTexts (paths : List String) : IO (List (String × Except FileFault String)) :=
  paths.mapM fun (path : String) => do
    try
      return (path, .ok (← IO.FS.readFile path))
    catch error => return (path, .error (faultOf error))

/-- What has been read under a path. -/
def textUnder (texts : List (String × Except FileFault String)) (path : String) :
    Except FileFault String :=
  (texts.lookup path).getD (.error .missing)

/-- The time. -/
def present : IO Instant := do
  let now ← Std.Time.Timestamp.now
  return ⟨now.val.second.val, now.val.nano.val.toNat⟩

end Interchange.CommandLine

open Interchange in
/-- Runs scripts as the arguments say. -/
def main (args : List String) : IO UInt32 := do
  let file := CommandLine.textUnder (← CommandLine.readTexts (args.take 1))
  let settings := (Settings.ofArguments file args).toOption.getD {}
  let scripts ← CommandLine.readTexts settings.scripts
  let surroundings : Surroundings := {
    file
    script := fun path => (CommandLine.textUnder scripts path).map Script.statementsOfText }
  let store : Store := { clock := ← CommandLine.present }
  let outcome := CommandLine.run settings.shared.name surroundings args store
  (← IO.getStdout).putStr outcome.output
  (← IO.getStderr).putStr outcome.errors
  return UInt32.ofNat outcome.status
