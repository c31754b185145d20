import Conveyor.Command.History
import Conveyor.Command.Run
import Conveyor.Container.Rehearsal

/-!
# The command line

`run` rehearses a pipeline document, `admin` inspects the run history. Nothing is spawned:
scripts are read in the rehearsal language, the clock jumps from one event to the next, and the
history lasts as long as the process.

- `readEnvironment`, `readDisk`: what a command sees of the machine.
- `showLog`: the log, on standard error.
- `main`: carry out one command.
-/

namespace Conveyor

/-- The variables of the environment that a command looks at. -/
def variablesOfInterest : List Text :=
  ([ "PIPELINE_BRANCH", "PIPELINE_MAX_CONCURRENCY", "PIPELINE_PROVISIONER",
   "PIPELINE_OUTPUT_LIMIT",
    "PIPELINE_TEARDOWN_GRACE", "PIPELINE_DB_PATH", "PIPELINE_CONTAINER_PREFIX",
    "PIPELINE_DEFAULT_IMAGE", "PIPELINE_WORKSPACE", "PIPELINE_POOL_IMAGES"] : List Text) ++
    Sources.inheritedVariables

/-- The wall clock at the start of a rehearsal. -/
def rehearsalEpoch : Nat := Stamp.localMicros ⟨⟨1970, 1, 1⟩, 0, 0, 0, 0, some 0⟩

/-- A text on the terminal; a surrogate that stands by itself is shown as the replacement
character. -/
def onTerminal (s : Text) : String :=
  String.ofList (s.toList.map fun
    | .char c => c
    | .lone _ => '\uFFFD')

/-- The environment of the process. -/
def readEnvironment : IO Bindings := do
  let pairs ← variablesOfInterest.filterMapM fun name => do
    return (← IO.getEnv (onTerminal name)).map fun text => (name, .ofString text)
  return Bindings.ofPairs pairs

/-- A disk with the file at a path, if it can be read. -/
def readDisk (path : Text) : IO Disk := do
  let disk : Disk := ⟨"/", [], []⟩
  try
    let bytes ← IO.FS.readBinFile (onTerminal path)
    return disk.addFile path bytes.toList
  catch _ => return disk

/-- Write the log. -/
def showLog (entries : List LogEntry) : IO Unit := do
  for e in sortLog entries do
    IO.eprintln (onTerminal (e.level.name ++ " - " ++ e.message))

/-- Say that a command line was refused. -/
def showRefusal (r : Refusal) : IO UInt32 := do
  if r = .usage then IO.eprintln "usage: run DOCUMENT [OPTIONS] | admin runs list|show|delete"
  return r.exitCode.toNat.toUInt32

/-- Run a pipeline. -/
def runFromTerminal (argv : List Text) : IO UInt32 := do
  match RunRequest.read argv with
  | .error refusal => showRefusal refusal
  | .ok request =>
    let workplace : Workplace := ⟨← readDisk request.document, 0, 0⟩
    let circumstances : Circumstances :=
      ⟨← readEnvironment, rehearsalHost .smooth, rehearsalEpoch⟩
    let (ending, _) := workplace.runPipeline circumstances request
    let report := Workplace.report request.options ending
    showLog report.log
    IO.print (onTerminal report.stdout)
    return report.exitCode.toNat.toUInt32

/-- Inspect the run history. -/
def inspectFromTerminal (argv : List Text) : IO UInt32 := do
  let disk : Disk := ⟨"/", [], []⟩
  let line ← if argv.contains "delete" then (← IO.getStdin).getLine else pure ""
  match (disk.history (← readEnvironment) line argv).1 with
  | .error refusal => showRefusal refusal
  | .ok report =>
    IO.print (onTerminal report.output)
    return report.exitCode.toNat.toUInt32

end Conveyor

/-- Carry out the command that the first word names. -/
def main (argv : List String) : IO UInt32 :=
  match argv with
  | "run" :: rest => Conveyor.runFromTerminal (rest.map .ofString)
  | "admin" :: rest => Conveyor.inspectFromTerminal (rest.map .ofString)
  | _ => Conveyor.showRefusal .usage
