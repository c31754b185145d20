import Conveyor.Schedule.Timer
import Conveyor.Unit.Basic

/-!
# Jobs in flight

A job that a worker has taken is in flight. Four parties take turns on it: the body acquires a
unit and runs the steps in it; the release gives the unit back; the watch waits for the
cancellation of the run; and the worker, in its own turn, waits for whichever of body, watch and
timeout comes first.

- `Call`: whether a party is to have a turn, and whether that turn is an interruption.
- `Body`, `Release`, `Watch`: how far the parties have got.
- `Post`: what the worker does about the job.
- `Flight`: a job in flight.
- `Cue`: a turn that one of the parties has on it.
- `completeSteps`: the results of all steps of a job, given the recorded ones.
-/

namespace Conveyor

/-- Is a party to have a turn? -/
inductive Call where
  /-- No: it waits. -/
  | idle
  /-- Its turn is to come. -/
  | called
  /-- Its turn is to come, and interrupts it. -/
  | cut
  deriving DecidableEq, Repr

/-- How a body waits for the release of its unit. -/
inductive Hold where
  /-- The release is within its grace period. -/
  | inTime
  /-- The release was interrupted; if `passOn`, so is the body once the release is over. -/
  | cutting (passOn : Bool)
  deriving DecidableEq, Repr

/-- How far the body of a job has got. -/
inductive Body where
  | fresh
  /-- It waits while it acquires a unit. -/
  | acquiring (next : Bool → Activity Deed ExecutionUnit)
  /-- It waits in a step. -/
  | stepping (unit : ExecutionUnit) (next : Bool → Activity StepNote Bool)
  /-- It waits for the release of its unit, and will then end in the way given. -/
  | releasing (unit : ExecutionUnit) (ending : Ending JobStatus) (hold : Hold)
  | ended (ending : Ending JobStatus)

/-- How far the release of a unit has got. -/
inductive Release where
  /-- There is nothing to release yet. -/
  | none
  | fresh (act : Activity Deed Unit)
  | waiting (next : Bool → Activity Deed Unit)
  | ended (ending : Ending Unit)

/-- How far the watch for the cancellation of the run has got. -/
inductive Watch where
  | fresh
  | waiting
  /-- The run was canceled, and the watch is to have a turn. -/
  | called
  /-- The watch has seen the cancellation. -/
  | ended
  /-- Nobody asks the watch any more. -/
  | dismissed
  deriving DecidableEq, Repr

/-- What a worker waits for. -/
inductive Vigil where
  /-- For the body, the timeout or the cancellation of the run. -/
  | watching
  /-- For a body that was interrupted. -/
  | preempting
  deriving DecidableEq, Repr

/-- Why the body of a job is interrupted. -/
inductive Cause where
  /-- The run is canceled. -/
  | canceled
  /-- The job takes too long. -/
  | timedOut
  /-- The body failed in an unforeseen way. -/
  | failed
  /-- The whole schedule is stopped. -/
  | stopped
  deriving DecidableEq, Repr

/-- The status of a job that is interrupted; a stopped schedule leaves none. -/
def Cause.status? : Cause → Option JobStatus
  | canceled => some .canceled
  | timedOut => some .timedOut
  | failed => some .failed
  | stopped => none

/-- What the worker that took a job does about it. -/
inductive Post where
  /-- Nothing any more. -/
  | away
  | watching
  | preempting (cause : Cause)
  deriving DecidableEq, Repr

/-- How the worker waits for the job, if it does. -/
def Post.vigil? : Post → Option Vigil
  | away => none
  | watching => some .watching
  | preempting _ => some .preempting

/-- One turn on a job in flight. -/
inductive Cue where
  | body
  | release
  | watch
  /-- The worker learns that the body is over, if it still waits for that in the same way. -/
  | bodyOver (vigil : Vigil)
  /-- The worker learns of the cancellation. -/
  | watchOver
  /-- The body learns that the release is over. -/
  | releaseOver
  /-- A timer goes off. -/
  | bell (b : Bell)
  deriving DecidableEq, Repr

/-- A job in flight. -/
structure Flight where
  job : JobInstance
  /-- The number of the worker that took it. -/
  worker : Nat
  /-- When it was taken. -/
  takenAt : Nat
  state : JobState
  /-- The step results recorded so far. -/
  steps : List StepResult
  body : Body
  bodyCall : Call
  release : Release
  releaseCall : Call
  watch : Watch

/-- A job at the moment at which a worker takes it: body and watch are to have their first
turns. -/
def Flight.launch (job : JobInstance) (worker time : Nat) : Flight :=
  { job := job
    worker := worker
    takenAt := time
    state := .queued
    steps := []
    body := .fresh
    bodyCall := .called
    release := .none
    releaseCall := .idle
    watch := .fresh }

/-- Results for the steps that have none among the recorded ones; the first step has the given
index. -/
def missingFrom (recorded : List StepResult) : Nat → List StepSpec → List StepResult
  | _, [] => []
  | index, step :: rest =>
    if recorded.any fun r => r.index = index then missingFrom recorded (index + 1) rest
    else .skipped index step.displayName :: missingFrom recorded (index + 1) rest

/-- The results of all steps of a job, given the recorded ones. -/
def completeSteps (steps : List StepSpec) (recorded : List StepResult) : List StepResult :=
  recorded ++ missingFrom recorded 0 steps

end Conveyor
