import Conveyor.Record.Basic
import Conveyor.Run.Sink
import Conveyor.Store.Tables

/-!
# The run history

Recorded runs are kept in tables. Changes are seen at once but last only when they are committed;
a call that fails half-way leaves what it did so far to the next commit, and closing the store
drops what is not committed.

- `Store`: the committed tables and the tables as they are seen.
- `Store.createRun`, `.recordJob`, `.completeRun`, `.deleteRun`: each commits if it succeeds.
- `Store.getRun`, `.listRuns`.
- `Store.reopen`: close and open again.
- `Store.sink`: the store as a receiver of results.
-/

namespace Conveyor

/-- A run history. `none` is a history whose tables were never created. -/
structure Store where
  committed : Option Tables
  seen : Option Tables
  deriving DecidableEq, Repr

/-- What a call on the store does: its answer, and the store afterwards. -/
abbrev StoreStep (α : Type) := Store → Except StoreFault α × Store

namespace Store

/-- A history without tables. -/
def empty : Store := ⟨none, none⟩

/-- Make all changes last. -/
def commit (s : Store) : Store := { s with committed := s.seen }

/-- Create the tables unless they are there. -/
def createTables (s : Store) : Store := commit { s with seen := some (s.seen.getD .blank) }

/-- Close the history and open it again. -/
def reopen (s : Store) : Store := { s with seen := s.committed }

/-- Change the tables; `name` is the table that the change looks at first. -/
def change (name : String) (f : Tables → Except StoreFault Tables) : StoreStep Unit := fun s =>
  match s.seen with
  | none => (.error (.noTable name), s)
  | some t =>
    match f t with
    | .ok t' => (.ok (), { s with seen := some t' })
    | .error fault => (.error fault, s)

/-- One change after another. -/
def andThen {α β : Type} (a : StoreStep α) (f : α → StoreStep β) : StoreStep β := fun s =>
  match a s with
  | (.ok x, s') => f x s'
  | (.error fault, s') => (.error fault, s')

/-- Commit as the last part of a call. -/
def committing : StoreStep Unit := fun s => (.ok (), s.commit)

/-- The value of an optional time. -/
def timeCell : Option Stamp → Cell
  | some t => .text t.text
  | none => .null

/-- Record that a run starts. -/
def createRun (runId : Text) (branch : Option Text) (startedAt : Option Stamp) :
    StoreStep Unit :=
  match startedAt with
  | none => fun s => (.error .noStart, s)
  | some t =>
    andThen (change "runs" fun tables => do
      let id ← Cell.ofText runId
      let branch ← (branch.map Cell.ofText).getD (.ok .null)
      tables.insertRun
        { id := id
          status := .text "running"
          branch := branch
          startedAt := .text t.text
          finishedAt := .null }) fun _ => committing

/-- The row of a run. -/
def runRow (r : RunRecord) : Except StoreFault RunRow := do
  match ← Cell.ofValues 1 [r.runId, r.status, r.branch] with
  | [id, status, branch] =>
    .ok
      { id := id.asText
        status := status.asText
        branch := branch.asText
        startedAt := timeCell r.startedAt
        finishedAt := timeCell r.finishedAt }
  | _ => .error .noStart

/-- Record that a run is over. -/
def completeRun (r : RunRecord) : StoreStep Unit :=
  andThen (change "runs" fun tables => do tables.upsertRun (← runRow r)) fun _ => committing

/-- The row of a job at a position. -/
def jobRow (runId : Text) (position : Int) (j : JobRecord) : Except StoreFault JobRow := do
  let run ← Cell.ofText runId
  match ← Cell.ofValues 2 [j.jobId, .null, j.status, j.templateName, j.variant] with
  | [jobId, _, status, templateName, variant] =>
    .ok
      { runId := run
        jobId := jobId.asText
        position := position
        status := status.asText
        templateName := templateName.asText
        variant := variant.asText
        startedAt := timeCell j.startedAt
        finishedAt := timeCell j.finishedAt }
  | _ => .error .noStart

/-- The row of a step. -/
def stepRow (runId : Text) (jobId : Value) (s : StepRecord) : Except StoreFault StepRow := do
  let run ← Cell.ofText runId
  match ← Cell.ofValues 2
    [jobId, s.index, s.displayName, s.status, s.exitCode, s.durationMs, s.output] with
  | [jobId, index, displayName, status, exitCode, durationMs, output] =>
    .ok
      { runId := run
        jobId := jobId.asText
        index := index.asInteger
        displayName := displayName.asText
        status := status.asText
        exitCode := exitCode.asInteger
        durationMs := durationMs.asInteger
        output := output.asText
        truncated := s.truncated }
  | _ => .error .noStart

/-- Insert the steps of a job one after another. -/
def insertSteps (runId : Text) (jobId : Value) : List StepRecord → StoreStep Unit
  | [] => fun s => (.ok (), s)
  | step :: rest =>
    andThen (change "steps" fun tables => do tables.insertStep (← stepRow runId jobId step))
      fun _ => insertSteps runId jobId rest

/-- The position for the next job of a run. -/
def position (runId : Text) : StoreStep Int := fun s =>
  match s.seen with
  | none => (.error (.noTable "jobs"), s)
  | some t => ((Cell.ofText runId).map t.nextPosition, s)

/-- Remove what is recorded of a job. -/
def forgetJob (runId : Text) (jobId : Value) : StoreStep Unit :=
  change "jobs" fun tables => do
    let run ← Cell.ofText runId
    let id ← Cell.ofValue 2 jobId
    .ok (tables.deleteJob run id.asText)

/-- Record a job in place of what was recorded of it before. -/
def recordJob (runId : Text) (j : JobRecord) : StoreStep Unit :=
  andThen (position runId) fun p =>
  andThen (forgetJob runId j.jobId) fun _ =>
  andThen (change "jobs" fun tables => do tables.insertJob (← jobRow runId p j)) fun _ =>
  andThen (insertSteps runId j.jobId j.steps) fun _ => committing

/-- Delete a run with all that is recorded of it. The answer says whether there was one. -/
def deleteRun (runId : Text) : StoreStep Bool := fun s =>
  match s.seen with
  | none => (.error (.noTable "runs"), s)
  | some t =>
    match Cell.ofText runId with
    | .ok id => (.ok (t.hasRun id), commit { s with seen := some (t.deleteRun id) })
    | .error fault => (.error fault, s)

/-- A time that is stored. -/
def readTime : Cell → Option Stamp
  | .text s => (Stamp.read s).toOption
  | _ => none

/-- The record of a step. -/
def stepRecord (s : StepRow) : StepRecord :=
  { index := s.index.toValue
    displayName := s.displayName.toValue
    status := s.status.toValue
    exitCode := s.exitCode.toValue
    durationMs := s.durationMs.toValue
    output := s.output.toValue
    truncated := s.truncated }

/-- The record of a job, with or without its steps. -/
def jobRecord (t : Tables) (withSteps : Bool) (j : JobRow) : JobRecord :=
  { jobId := j.jobId.toValue
    status := j.status.toValue
    steps := if withSteps then (t.stepsOf j.runId j.jobId).map stepRecord else []
    templateName := j.templateName.toValue
    variant := j.variant.toValue
    startedAt := readTime j.startedAt
    finishedAt := readTime j.finishedAt }

/-- The record of a run, with or without the steps of its jobs. -/
def runRecord (t : Tables) (withSteps : Bool) (r : RunRow) : RunRecord :=
  { runId := r.id.toValue
    status := r.status.toValue
    jobs := (t.jobsOf r.id).map (jobRecord t withSteps)
    branch := r.branch.toValue
    startedAt := readTime r.startedAt
    finishedAt := readTime r.finishedAt }

/-- A recorded run. -/
def getRun (s : Store) (runId : Text) : Except StoreFault (Option RunRecord) :=
  match s.seen with
  | none => .error (.noTable "runs")
  | some t => do
    let id ← Cell.ofText runId
    .ok ((t.runs.find? fun r => Cell.meets id r.id).map (runRecord t true))

/-- The recorded runs without their steps, those that started last first, at most so many. -/
def listRuns (s : Store) (limit : Option Int) : Except StoreFault (List RunRecord) :=
  match s.seen with
  | none => .error (.noTable "runs")
  | some t =>
    let limit := limit.getD (-1)
    if !Cell.fits limit then .error .tooLarge
    else
      let sorted := t.runs.mergeSort fun a b => a.startedAt.notBefore b.startedAt
      let rows := if limit < 0 then sorted else sorted.take limit.toNat
      .ok (rows.map (runRecord t false))

/-- The numbers of runs, jobs and steps. -/
def counts (s : Store) : Option (Nat × Nat × Nat) :=
  s.seen.map fun t => (t.runs.length, t.jobs.length, t.steps.length)

/-- A call of the store as a reception. -/
def reception (step : StoreStep Unit) : Reception Store :=
  .look fun s =>
    .keep (step s).2 <|
      match (step s).1 with
      | .ok () => .finish (.done ())
      | .error fault => .finish (.failed (.crashed fault.message))

/-- The store as a sink. -/
def sink : Sink Store
  | .createRun runId branch startedAt =>
    reception (createRun runId (some branch) (some startedAt))
  | .recordJob runId result => reception (recordJob runId (JobRecord.ofResult result))
  | .completeRun result => reception (completeRun (RunRecord.ofResult result))

end Store

end Conveyor
