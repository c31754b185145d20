import Conveyor.Record.Basic
import Conveyor.Record.Json
import Conveyor.Text.Column
import Conveyor.Text.Uppercase

/-!
# Printed runs

What the command line prints of a run.

- `columnText`: a value in a column of some width; not every kind of value can stand in one.
- `RunRecord.printed`: a run for people.
- `RunRecord.printedJson`: a run as JSON.
-/

namespace Conveyor

/-- A value as it stands in a column. -/
def columnText : Value → Except PrintFault Text
  | .text s => .ok s
  | .int i => writtenInt i
  | .bool b => .ok (if b then "1" else "0")
  | .float x => .ok x.text
  | _ => .error .kind

/-- What is printed of a value, unless it holds an integer with too many digits. -/
def writtenAs (text : Value → Text) (v : Value) : Except PrintFault Text :=
  if v.hasUnwritable then .error .digits else .ok (text v)

/-- A value at the left of a column. -/
def leftColumn (width : Nat) (v : Value) : Except PrintFault Text :=
  (columnText v).map (Text.padRight width)

/-- The exit code of a step as it is printed. -/
def printedExitCode (v : Value) : Text :=
  match v with
  | .null => "-"
  | v => v.plainText

/-- The line of a step. -/
def StepRecord.printed (s : StepRecord) : Except PrintFault Text := do
  .ok ("    " ++ (← leftColumn 12 s.status) ++ " " ++
    Text.padLeft 4 (← writtenAs printedExitCode s.exitCode) ++ "  " ++
    (← writtenAs Value.plainText s.displayName) ++ "\n")

/-- The lines of some steps. -/
def printedSteps : List StepRecord → Except PrintFault Text
  | [] => .ok ""
  | s :: rest => do .ok ((← s.printed) ++ (← printedSteps rest))

/-- The lines of some jobs. -/
def printedJobs : List JobRecord → Except PrintFault Text
  | [] => .ok ""
  | j :: rest => do
    let head := "  " ++ (← leftColumn 40 j.jobId) ++ " " ++
      (← writtenAs Value.plainText j.status) ++ "\n"
    .ok (head ++ (← printedSteps j.steps) ++ (← printedJobs rest))

/-- A run for people. -/
def RunRecord.printed (r : RunRecord) : Except PrintFault Text := do
  let runId ← writtenAs Value.plainText r.runId
  match r.status with
  | .text status =>
    .ok ("Run " ++ runId ++ ": " ++ Text.upper status ++ "\n" ++ (← printedJobs r.jobs))
  | _ => .error .status

/-- A run as JSON. -/
def RunRecord.printedJson (r : RunRecord) : Except PrintFault Text :=
  r.toValue.json.map (· ++ "\n")

end Conveyor
