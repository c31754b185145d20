import Conveyor.Activity.Moment
import Conveyor.Schedule.Dispatch
import Conveyor.Text.Pieces

/-!
# What is seen of a schedule

Everything is seen as it stands when the schedule ends: what abandoned jobs do later is not.

- `logOf`: the messages among some notes.
- `ScriptCall`: one execution of a script.
- `ScheduleReport`: what was seen of a schedule, and how it ended.
- `ScheduleReport.log`, `.calls`, `.acquired`, `.released`, `.completed`, `.results`.
- `Engine.reportSchedule`: run jobs on a floor, and report.
-/

namespace Conveyor

/-- What the log says of a note. -/
def Note.logged? (time : Nat) : Note → Option LogEntry
  | .log level message => some ⟨time, level, message⟩
  | .moved jobId source target =>
    some ⟨time, .info, "Job " ++ jobId ++ ": " ++ source.word ++ " -> " ++ target.word⟩
  | .turnedAway jobId => some ⟨time, .info, "Job " ++ jobId ++
      ": queued -> canceled (never started)"⟩
  | _ => none

/-- The messages among some notes. -/
def logOf (notes : List TimedNote) : List LogEntry := notes.filterMap fun n => n.2.logged? n.1

/-- The messages among what was seen on a floor. -/
def Floor.log {σ : Type} (fl : Floor σ) : List LogEntry :=
  logOf (fl.sightings.map fun x => (x.time, x.note))

/-- The step results among some notes. -/
def recordedIn (notes : List TimedNote) : List StepResult :=
  notes.filterMap fun
    | (_, .recorded r) => some r
    | _ => none

/-- One execution of a script. -/
structure ScriptCall where
  jobId : Text
  start : Nat
  /-- When it ended, if it did. -/
  stop : Option Nat
  script : Text
  env : Bindings
  deriving DecidableEq, Repr

/-- When a flight's next execution ends. -/
def nextEnd (flight : Nat) : List Sighting → Option Nat
  | [] => none
  | ⟨time, some f, .ended⟩ :: rest => if f = flight then some time else nextEnd flight rest
  | _ :: rest => nextEnd flight rest

/-- The executions that begin among some sightings, given the ids of the jobs in flight. -/
def callsAmong (ids : List Text) : List Sighting → List ScriptCall
  | [] => []
  | ⟨time, some f, .began script env⟩ :: rest =>
    ⟨(ids[f]?).getD "", time, nextEnd f rest, script, env⟩ :: callsAmong ids rest
  | _ :: rest => callsAmong ids rest

/-- Executions by start, then by job. -/
def sortCalls (calls : List ScriptCall) : List ScriptCall :=
  calls.mergeSort fun a b =>
    if a.start ≠ b.start then a.start < b.start else !Text.precedes b.jobId a.jobId

/-- Times with job ids, by time, then by id. -/
def sortMarks (marks : List (Nat × Text)) : List (Nat × Text) :=
  marks.mergeSort fun a b => if a.1 ≠ b.1 then a.1 < b.1 else !Text.precedes b.2 a.2

/-- A schedule that is over. -/
structure ScheduleReport where
  /-- The jobs, in order. -/
  jobs : List JobInstance
  ending : ScheduleEnd
  endedAt : Nat
  /-- The ids of all jobs that ever were in flight on the floor. -/
  ids : List Text
  /-- What was seen, in order. -/
  sightings : List Sighting

namespace ScheduleReport

/-- Everything seen, in order. -/
def notes (s : ScheduleReport) : List TimedNote := s.sightings.map fun x => (x.time, x.note)

/-- The log. -/
def log (s : ScheduleReport) : List LogEntry := logOf s.notes

/-- All executions of scripts that began. -/
def calls (s : ScheduleReport) : List ScriptCall := sortCalls (callsAmong s.ids s.sightings)

/-- The times of a kind of note, with the job. -/
def marks (s : ScheduleReport) (kind : Note) : List (Nat × Text) :=
  sortMarks (s.sightings.filterMap fun x =>
    if x.note = kind then (x.flight.bind (s.ids[·]?)).map fun id => (x.time, id) else none)

/-- When units were acquired. -/
def acquired (s : ScheduleReport) : List (Nat × Text) := s.marks .acquired

/-- When units were released. -/
def released (s : ScheduleReport) : List (Nat × Text) := s.marks .released

/-- The results, with their times, in the order in which they came. -/
def completed (s : ScheduleReport) : List (Nat × JobResult) :=
  s.sightings.filterMap fun x =>
    match x.note with
    | .completed result => some (x.time, result)
    | _ => none

/-- The result that is kept for a job id: the last to come. -/
def resultFor (s : ScheduleReport) (jobId : Text) : Option JobResult :=
  (s.completed.reverse.find? fun c => c.2.jobId = jobId).map Prod.snd

/-- The results of all jobs, in order, unless the schedule was stopped. -/
def results (s : ScheduleReport) : Option (List JobResult) :=
  match s.ending with
  | .finished => some (s.jobs.filterMap fun i => s.resultFor i.id)
  | .stopped => none

end ScheduleReport

/-- Run jobs on a floor, and report. The floor afterwards has nothing seen on it. -/
def Engine.reportSchedule {σ : Type} (e : Engine) (jobs : List JobInstance) (fl : Floor σ) :
    Option (ScheduleReport × Floor σ) :=
  (e.schedule jobs fl).map fun (fl', ending) =>
    ({ jobs := jobs
       ending := ending
       endedAt := fl'.now
       ids := fl'.flights.map fun x => x.job.id
       sightings := fl'.sightings }, fl'.forget)

end Conveyor
