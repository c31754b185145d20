import Conveyor.Store.Cell

/-!
# Tables

The tables of the run history, and the statements on them. A statement either takes effect or is
refused and changes nothing.

- `Tables`: runs, jobs and steps. Rows stand in the order in which they were inserted.
- `insertRun`, `upsertRun`, `deleteRun`: a run goes with its jobs and steps.
- `nextPosition`, `deleteJob`, `insertJob`, `insertStep`.
-/

namespace Conveyor

/-- A run. -/
structure RunRow where
  id : Cell
  status : Cell
  branch : Cell
  startedAt : Cell
  finishedAt : Cell
  deriving DecidableEq, Repr

/-- A job of a run. -/
structure JobRow where
  runId : Cell
  jobId : Cell
  /-- Jobs of a run are listed by position. -/
  position : Int
  status : Cell
  templateName : Cell
  variant : Cell
  startedAt : Cell
  finishedAt : Cell
  deriving DecidableEq, Repr

/-- A step of a job. -/
structure StepRow where
  runId : Cell
  jobId : Cell
  index : Cell
  displayName : Cell
  status : Cell
  exitCode : Cell
  durationMs : Cell
  output : Cell
  truncated : Bool
  deriving DecidableEq, Repr

/-- All tables. -/
structure Tables where
  runs : List RunRow
  jobs : List JobRow
  steps : List StepRow
  deriving DecidableEq, Repr

namespace Tables

/-- Tables without rows. -/
def blank : Tables := ⟨[], [], []⟩

/-- The first column that must not be empty and is. -/
def firstEmpty : List (String × Cell) → Option String
  | [] => none
  | (column, .null) :: _ => some column
  | _ :: rest => firstEmpty rest

/-- Is there a run of this id? -/
def hasRun (t : Tables) (id : Cell) : Bool := t.runs.any fun r => id.meets r.id

/-- Is there such a job? -/
def hasJob (t : Tables) (runId jobId : Cell) : Bool :=
  t.jobs.any fun j => runId.meets j.runId && jobId.meets j.jobId

/-- Insert a run. -/
def insertRun (t : Tables) (r : RunRow) : Except StoreFault Tables :=
  match firstEmpty [("runs.status", r.status)] with
  | some column => .error (.empty column)
  | none =>
    if t.hasRun r.id then .error (.unique "runs.id") else .ok { t with runs := t.runs ++ [r] }

/-- Insert a run, or give the one of its id a new status and end. -/
def upsertRun (t : Tables) (r : RunRow) : Except StoreFault Tables :=
  match firstEmpty [("runs.status", r.status)] with
  | some column => .error (.empty column)
  | none =>
    if t.hasRun r.id then
      .ok { t with runs := t.runs.map fun o =>
        if r.id.meets o.id then { o with status := r.status, finishedAt := r.finishedAt } else
        o }
    else .ok { t with runs := t.runs ++ [r] }

/-- Delete a run with its jobs and steps. -/
def deleteRun (t : Tables) (id : Cell) : Tables :=
  { runs := t.runs.filter fun r => !id.meets r.id
    jobs := t.jobs.filter fun j => !id.meets j.runId
    steps := t.steps.filter fun s => !id.meets s.runId }

/-- The position after the last job of a run. -/
def nextPosition (t : Tables) (runId : Cell) : Int :=
  (t.jobs.foldl (fun p j => if runId.meets j.runId then max p j.position else p) (-1)) + 1

/-- Delete a job with its steps. -/
def deleteJob (t : Tables) (runId jobId : Cell) : Tables :=
  { t with
    jobs := t.jobs.filter fun j => !(runId.meets j.runId && jobId.meets j.jobId)
    steps := t.steps.filter fun s => !(runId.meets s.runId && jobId.meets s.jobId) }

/-- Insert a job. -/
def insertJob (t : Tables) (j : JobRow) : Except StoreFault Tables :=
  match firstEmpty [("jobs.run_id", j.runId), ("jobs.job_id", j.jobId),
    ("jobs.status", j.status)] with
  | some column => .error (.empty column)
  | none =>
    if t.hasJob j.runId j.jobId then .error (.unique "jobs.run_id, jobs.job_id")
    else if t.hasRun j.runId then .ok { t with jobs := t.jobs ++ [j] }
    else .error .dangling

/-- Insert a step. -/
def insertStep (t : Tables) (s : StepRow) : Except StoreFault Tables :=
  match firstEmpty
    [("steps.run_id", s.runId), ("steps.job_id", s.jobId), ("steps.step_index", s.index),
     ("steps.display_name", s.displayName), ("steps.status", s.status),
     ("steps.duration_ms", s.durationMs), ("steps.output", s.output)] with
  | some column => .error (.empty column)
  | none =>
    if t.hasJob s.runId s.jobId then .ok { t with steps := t.steps ++ [s] } else .error .dangling

/-- The jobs of a run by position; of those with the same position, by id. -/
def jobsOf (t : Tables) (runId : Cell) : List JobRow :=
  (t.jobs.filter fun j => runId.meets j.runId).mergeSort fun a b =>
    if a.position ≠ b.position then a.position < b.position else b.jobId.notBefore a.jobId

/-- The steps of a job in the order in which they were inserted. -/
def stepsOf (t : Tables) (runId jobId : Cell) : List StepRow :=
  t.steps.filter fun s => runId.meets s.runId && jobId.meets s.jobId

end Tables

end Conveyor
