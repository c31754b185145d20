import Conveyor.Command.Backend
import Conveyor.Command.Disk
import Conveyor.Document.Load
import Conveyor.Record.Printed
import Conveyor.Run.Coordinator

/-!
# Running a pipeline from the command line

- `Workplace`: what consecutive commands share.
- `CommandReport`: what is seen of a command that ran a pipeline.
- `Workplace.runPipeline`: carry a request out: find the branch, load the document, put the
  engine together, open the run history, and run.
- `Workplace.run`: the same from the words of a command line.
-/

namespace Conveyor

/-- What consecutive commands share. -/
structure Workplace where
  disk : Disk
  /-- How many names have been given, and how many processes spawned. -/
  names : Nat
  processes : Nat
  deriving DecidableEq, Repr

/-- The circumstances of a command. -/
structure Circumstances where
  environment : Bindings
  host : Host
  /-- The wall clock at the start. -/
  epoch : Nat

/-- What is seen of a command. -/
structure CommandReport where
  exitCode : Int
  stdout : Text
  endedAt : Nat
  /-- The log as far as the request asks for it. -/
  log : List LogEntry
  notes : List TimedNote

/-- Why there is no result to print. -/
inductive CommandFault where
  | noBranch
  | load (fault : LoadFault)
  | unreadable (path : Text) (fault : PathFault)
  /-- There is a null character in the path of the workspace. -/
  | nullWorkspace
  | history (fault : OpenFault)
  | run (fault : RunFault)
  deriving DecidableEq, Repr

namespace CommandFault

/-- Is something wrong with what the user configured? Then the message says so. -/
def isConfiguration : CommandFault → Bool
  | noBranch => true
  | load (.missing _) => true
  | load (.malformed _) => true
  | load (.document .unwritableInteger) => false
  | load (.document .timeoutOverflow) => false
  | load (.document .tooDeep) => false
  | load (.document _) => true
  | run (.expansion _) => true
  | _ => false

/-- The reason, in words. -/
def reason : CommandFault → Text
  | noBranch => "No branch given (use --branch or PIPELINE_BRANCH)"
  | load fault => fault.message
  | unreadable path fault => fault.message path
  | nullWorkspace => nullMessage
  | history fault => fault.message
  | run (.expansion fault) => fault.message
  | run _ => ""

/-- What the log says. -/
def message (f : CommandFault) : Text :=
  (if f.isConfiguration then "Configuration error: " else "Fatal error: ") ++ f.reason

/-- The exit code. -/
def exitCode (f : CommandFault) : Int :=
  if f.isConfiguration then exitMisconfigured else exitFailed

end CommandFault

/-- How a command ended: with a result or a fault, after some messages. -/
structure CommandEnd where
  outcome : Except CommandFault RunResult
  log : List LogEntry
  endedAt : Nat
  notes : List TimedNote

/-- A command that ended before anything ran. -/
def CommandEnd.early (fault : CommandFault) (log : List LogEntry) : CommandEnd :=
  ⟨.error fault, log, 0, []⟩

/-- Warnings at the start of a command. -/
def warningLog (warnings : List Text) : List LogEntry := warnings.map fun w => ⟨0, .warning, w⟩

namespace Workplace

/-- Load the document at a path. -/
def loadDocument (w : Workplace) (path : Text) (read : Yaml.Reader := Yaml.decode) :
    Except CommandFault PipelineDocument :=
  let p := Path.read path
  match w.disk.readFile p with
  | .ok bytes => (PipelineDocument.load p.text (some bytes) read).mapError .load
  | .error .missing => .error (.load (.missing p.text))
  | .error fault => .error (.unreadable p.text fault)

/-- The workplace after a run. -/
def afterRun {σ : Type} (w : Workplace) (r : RunReport σ) : Workplace :=
  { w with names := r.floor.around.names, processes := r.floor.around.processes }

/-- The end of a command that came to run something. -/
def endOfRun {σ : Type} (log : List LogEntry) (r : RunReport σ) : CommandEnd :=
  { outcome := r.outcome.mapError .run
    log := log ++ r.log
    endedAt := r.floor.now
    notes := (r.schedule.map ScheduleReport.notes).getD [] }

/-- Run a document for a branch, and record the run if there is a history. `warned` are the
warnings so far. -/
def runOn (w : Workplace) (c : Circumstances) (s : Sources) (document : PipelineDocument)
    (branch : Text) (backend : Backend) (warned : List Text) : CommandEnd × Workplace :=
  let slots := s.maxConcurrency
  let limit := s.outputLimit
  let grace := s.teardownGrace
  let engine : Engine :=
    { provisioner := backend.provisioner
      executor := backend.executor
      maxConcurrency := slots.value
      outputLimit := limit.value
      graceSeconds := grace.value
      epoch := c.epoch }
  let log := warningLog (warned ++ slots.warnings ++ limit.warnings ++ grace.warnings)
  let kind := s.provisionerKind
  let inherited := s.runVariables kind.value
  let change : Change := ⟨branch, s.options.changedPaths, none⟩
  match nonempty? s.dbPath with
  | none =>
    let floor := Floor.start w.names w.processes (⟨(), []⟩ : Notebook Unit)
    let r := engine.runChange document inherited none change floor
    (endOfRun (log ++ warningLog kind.warnings) r, w.afterRun r)
  | some path =>
    match w.disk.openStore path with
    | .error fault => (.early (.history fault) log, w)
    | .ok store =>
      let log := log ++ [⟨0, .info, "Recording run history in " ++ path⟩]
      let floor := Floor.start w.names w.processes (⟨store, []⟩ : Notebook Store)
      let r := engine.runChange document inherited (some Store.sink) change floor
      (endOfRun (log ++ warningLog kind.warnings) r,
        { w.afterRun r with disk := w.disk.saveStore path r.floor.memory.memory })

/-- Run a document for a branch. -/
def runDocument (w : Workplace) (c : Circumstances) (s : Sources) (document : PipelineDocument)
    (branch : Text) : CommandEnd × Workplace :=
  let backend := s.backend? c.host
  match backend.value with
  | none => (.early .nullWorkspace (warningLog backend.warnings), w)
  | some b => w.runOn c s document branch b backend.warnings

/-- Carry a request out. -/
def runPipeline (w : Workplace) (c : Circumstances) (request : RunRequest)
    (read : Yaml.Reader := Yaml.decode) : CommandEnd × Workplace :=
  let s : Sources := ⟨request.options, c.environment⟩
  match nonempty? s.branch with
  | none => (.early .noBranch [], w)
  | some branch =>
    match w.loadDocument request.document read with
    | .error fault => (.early fault [], w)
    | .ok document => w.runDocument c s document branch

/-- What is printed of a result. -/
def printed (json : Bool) (r : RunResult) : Text :=
  let record := RunRecord.ofResult r
  ((if json then record.printedJson else record.printed).toOption).getD ""

/-- What is seen of a command after it ended. -/
def report (o : RunOptions) (e : CommandEnd) : CommandReport :=
  match e.outcome with
  | .ok result =>
    { exitCode := result.status.exitCode
      stdout := printed o.json result
      endedAt := e.endedAt
      log := logFrom o.logLevel e.log
      notes := e.notes }
  | .error fault =>
    { exitCode := fault.exitCode
      stdout := ""
      endedAt := e.endedAt
      log := logFrom o.logLevel (e.log ++ [⟨e.endedAt, .error, fault.message⟩])
      notes := e.notes }

/-- The command that runs a pipeline. -/
def run (w : Workplace) (c : Circumstances) (argv : List Text)
    (read : Yaml.Reader := Yaml.decode) : Except Refusal CommandReport × Workplace :=
  match RunRequest.read argv with
  | .error refusal => (.error refusal, w)
  | .ok request =>
    let (e, w') := w.runPipeline c request read
    (.ok (report request.options e), w')

end Workplace

end Conveyor
