import Conveyor.Activity.Names
import Conveyor.Process.Basic
import Conveyor.Run.Sink
import Conveyor.Schedule.Await
import Conveyor.Schedule.View
import Conveyor.Text.Uppercase

/-!
# Runs

A change starts a run if the document's trigger says so. The run expands the jobs, schedules
them, and folds their results into one verdict. Consecutive runs share a floor: its clock goes
on, a cancellation stays, and so does what is still in flight.

- `Change`: what a run is requested for.
- `RunReport`: the result of a run, and everything seen of it.
- `Engine.runChange`: run a document for a change.
-/

namespace Conveyor

/-- The change that a run is requested for. -/
structure Change where
  branch : Text
  paths : List Text
  /-- The id of the run; without one, or with an empty one, an id is made up. -/
  runId : Option Text
  deriving DecidableEq, Repr

/-- Why a run has no result. -/
inductive RunFault where
  | expansion (fault : ExpansionFault)
  /-- The schedule was stopped. -/
  | stopped
  /-- The schedule never ends. -/
  | endless
  deriving DecidableEq, Repr

/-- The result of a run, and everything seen of it. -/
structure RunReport (σ : Type) where
  outcome : Except RunFault RunResult
  /-- The schedule of its jobs, if it came to that. -/
  schedule : Option ScheduleReport
  log : List LogEntry
  /-- What the sink was told, and when. -/
  told : List (Nat × SinkCall)
  /-- The floor afterwards, and what the sink remembers. -/
  floor : Floor (Notebook σ)

/-- How many of the statuses are the given one. -/
def countStatus (s : JobStatus) (statuses : List JobStatus) : Nat :=
  (statuses.filter fun t => t = s).length

/-- The statuses in the order of their words. -/
def statusesByWord : List JobStatus := [.canceled, .failed, .success, .timedOut]

/-- How many jobs ended in which way. -/
def statusSummary (statuses : List JobStatus) : Text :=
  let parts := statusesByWord.filterMap fun s =>
    let n := countStatus s statuses
    if n = 0 then none else some (Nat.repr n ++ " " ++ s.word)
  if parts.isEmpty then "no jobs" else Text.joinWith ", " parts

/-- The last message of a run. -/
def verdictMessage (r : RunResult) : Text :=
  "Run " ++ r.runId ++ " " ++ Text.upper r.status.word ++ " (" ++
    statusSummary (r.jobs.map JobResult.status) ++ ")"

/-- What is seen of the result of a job, and told to the sink. -/
def record {σ : Type} (sink : Option (Sink σ)) (runId : Text) : Receiver (Notebook σ) :=
  fun r =>
  .note (.log .info ("Job " ++ r.jobId ++ " finished: " ++ r.status.word))
    (offer sink (.recordJob runId r))

/-- The id of a run, and how many names have been given. -/
def chooseRunId (change : Change) (names : Nat) : Text × Nat :=
  match change.runId with
  | some id => if id = "" then (freshName (names + 1), names + 1) else (id, names)
  | none => (freshName (names + 1), names + 1)

/-- The floor at the beginning of a run: names have been given, nobody wants to know of results
yet, and the sink was told nothing. -/
def Floor.begin {σ : Type} (names : Nat) (fl : Floor (Notebook σ)) : Floor (Notebook σ) :=
  { fl with
    around := { fl.around with names := names }
    receiver := .nobody
    memory := { fl.memory with told := [] } }

/-- A message for the log. -/
def Floor.say {σ : Type} (level : LogLevel) (message : Text) (fl : Floor σ) : Floor σ :=
  fl.see none [.log level message]

namespace Engine

variable {σ : Type}

/-- What is reported of a run that has come to some floor. What was logged until the end of its
schedule is given. -/
def reportRun (outcome : Except RunFault RunResult) (schedule : Option ScheduleReport)
    (log : List LogEntry) (fl : Floor (Notebook σ)) : RunReport σ :=
  { outcome := outcome
    schedule := schedule
    log := log ++ fl.log
    told := fl.memory.told
    floor := fl.forget }

/-- The run waits until its sink has been told something. That the sink fails is only logged. -/
def inform (e : Engine) (sink : Option (Sink σ)) (complaint : Text) (call : SinkCall)
    (fl : Floor (Notebook σ)) : Except RunFault Unit × Floor (Notebook σ) :=
  match e.await (offer sink call) fl with
  | none => (.error .endless, fl)
  | some (.interrupted, fl') => (.error .stopped, fl')
  | some (.failed fault, fl') => (.ok (), fl'.say .error (complaint ++ ": " ++ fault.message))
  | some (.done (), fl') => (.ok (), fl')

/-- A run has a result. -/
def finishRun (e : Engine) (sink : Option (Sink σ)) (schedule : Option ScheduleReport)
    (log : List LogEntry) (result : RunResult) (fl : Floor (Notebook σ)) : RunReport σ :=
  match e.inform sink ("Failed to record run " ++ result.runId) (.completeRun result) fl with
  | (.error fault, fl') => reportRun (.error fault) schedule log fl'
  | (.ok (), fl') => reportRun (.ok result) schedule log (fl'.say .info (verdictMessage result))

/-- A run begins: a remark is logged, and the sink is told that there is a run. -/
def register (e : Engine) (sink : Option (Sink σ)) (runId branch remark : Text)
    (fl : Floor (Notebook σ)) : Except RunFault Unit × Floor (Notebook σ) :=
  e.inform sink ("Failed to register run " ++ runId) (.createRun runId branch (e.stampAt fl.now))
    (fl.say .info remark)

/-- The remark on a run that its change does not trigger. -/
def skipMessage (runId branch : Text) : Text :=
  "Run " ++ runId ++ " skipped: change on " ++ branch ++ " does not match trigger"

/-- A run that its change does not trigger. -/
def skipRun (e : Engine) (sink : Option (Sink σ)) (runId branch : Text)
    (fl : Floor (Notebook σ)) : RunReport σ :=
  match e.register sink runId branch (skipMessage runId branch) fl with
  | (.error fault, fl') => reportRun (.error fault) none [] fl'
  | (.ok (), fl') =>
    e.finishRun sink none []
      ⟨runId, .skipped, [], branch, e.stampAt fl.now, e.stampAt fl'.now⟩ fl'

/-- The end of a run whose schedule is over. -/
def concludeRun (e : Engine) (sink : Option (Sink σ)) (runId branch : Text) (start : Stamp)
    (schedule : ScheduleReport) (log : List LogEntry) (fl : Floor (Notebook σ)) : RunReport σ :=
  match schedule.results with
  | none => reportRun (.error .stopped) (some schedule) log fl
  | some results =>
    e.finishRun sink (some schedule) log
      { runId := runId
        status := verdict (results.map JobResult.status)
        jobs := results
        branch := branch
        startedAt := start
        finishedAt := e.stampAt fl.now } fl

/-- The remark on a run whose jobs are to be scheduled. -/
def dispatchMessage (e : Engine) (runId branch : Text) (jobs : List JobInstance) : Text :=
  "Run " ++ runId ++ " on " ++ branch ++ ": dispatching " ++ Nat.repr jobs.length ++
    " job(s) with max concurrency " ++ Int.repr e.maxConcurrency

/-- A run of some jobs. The schedule begins when the sink knows of the run, and its workers tell
the sink of the results. -/
def runJobs (e : Engine) (sink : Option (Sink σ)) (runId branch : Text)
    (jobs : List JobInstance)
    (fl : Floor (Notebook σ)) : RunReport σ :=
  match e.register sink runId branch (e.dispatchMessage runId branch jobs) fl with
  | (.error fault, fl') => reportRun (.error fault) none [] fl'
  | (.ok (), registered) =>
    match e.reportSchedule jobs { registered.forget with receiver := record sink runId } with
    | none => reportRun (.error .endless) none [] registered
    | some (schedule, fl') =>
      e.concludeRun sink runId branch (e.stampAt fl.now) schedule (registered.log ++
          schedule.log)
        { fl' with receiver := .nobody }

/-- Run a document for a change. -/
def runChange (e : Engine) (document : PipelineDocument) (runVariables : Bindings)
    (sink : Option (Sink σ)) (change : Change) (floor : Floor (Notebook σ)) : RunReport σ :=
  let (runId, names) := chooseRunId change floor.around.names
  let fl := floor.begin names
  if document.trigger.triggers change.branch change.paths then
    match expandAll document.jobs (runVariables.update document.sharedVariables) with
    | .ok jobs => e.runJobs sink runId change.branch jobs fl
    | .error fault => reportRun (.error (.expansion fault)) none [] fl
  else e.skipRun sink runId change.branch fl

end Engine

end Conveyor
