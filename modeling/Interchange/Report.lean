import Interchange.Fault

/-!
# Reports

What went wrong, in the words of whoever noticed, with the causes behind it from the nearest to the
farthest.
-/

namespace Interchange

structure Report where
  summary : String
  causes : List String := []
deriving DecidableEq, Repr

namespace Report

/-- The causes of a fault: what it wraps. -/
def causesOf : Fault → List String
  | .json _ fault => [fault.text]
  | .shape _ mismatch => [mismatch.message]
  | _ => []

/-- The report of a fault. -/
def ofFault (fault : Fault) : Report := ⟨fault.message, causesOf fault⟩

/-- A report as the cause of another. -/
def within (summary : String) (report : Report) : Report :=
  ⟨summary, report.summary :: report.causes⟩

/-- Everything on one line. -/
def line (report : Report) : String :=
  String.intercalate ": " (report.summary :: report.causes)

/-- A cause behind its mark; further lines stand under its first. -/
def causeLines (mark margin : String) (cause : String) : String :=
  mark ++ String.intercalate ("\n" ++ margin) (cause.splitOn "\n")

/-- Causes behind their numbers. -/
def numbered : Nat → List String → List String
  | _, [] => []
  | n, cause :: rest => causeLines s!"    {n}: " "       " cause :: numbered (n + 1) rest

/-- The report over several lines. A single cause has no number. -/
def text (report : Report) : String :=
  let causes := match report.causes with
    | [] => []
    | [cause] => [causeLines "    " "    " cause]
    | causes => numbered 0 causes
  String.intercalate "\n" (("Error: " ++ report.summary) ::
    (if causes.isEmpty then [] else "" :: "Caused by:" :: causes)) ++ "\n"

end Report
end Interchange
