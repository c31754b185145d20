import Conveyor.Calendar.Stamp

/-!
# Results

What is known of a step, a job and a run once it is over.

- `StepResult`, `JobResult`, `RunResult`.
- `verdict`: the status of a run, from the statuses of its jobs.
- `RunStatus.exitCode`: what the command line answers for a run.
-/

namespace Conveyor

/-- How a step ended. -/
inductive StepStatus where
  | success
  | failed
  | skipped
  | interrupted
  deriving DecidableEq, Repr

/-- How a job ended. -/
inductive JobStatus where
  | success
  | failed
  | timedOut
  | canceled
  deriving DecidableEq, Repr

/-- How a run ended. -/
inductive RunStatus where
  | success
  | failed
  | canceled
  | skipped
  deriving DecidableEq, Repr

/-- The word for a status. -/
def StepStatus.word : StepStatus → Text
  | success => "success"
  | failed => "failed"
  | skipped => "skipped"
  | interrupted => "interrupted"

/-- The word for a status. -/
def JobStatus.word : JobStatus → Text
  | success => "success"
  | failed => "failed"
  | timedOut => "timed_out"
  | canceled => "canceled"

/-- The word for a status. -/
def RunStatus.word : RunStatus → Text
  | success => "success"
  | failed => "failed"
  | canceled => "canceled"
  | skipped => "skipped"

/-- What is known of a step. A failure to provide the platform is told by a step of index
`-1`. -/
structure StepResult where
  index : Int
  displayName : Text
  status : StepStatus
  exitCode : Option Int
  durationMs : Nat
  output : Text
  truncated : Bool
  deriving DecidableEq, Repr

/-- What is known of a job. -/
structure JobResult where
  jobId : Text
  status : JobStatus
  steps : List StepResult
  templateName : Text
  variant : Option Text
  startedAt : Option Stamp
  finishedAt : Stamp
  deriving DecidableEq, Repr

/-- What is known of a run. -/
structure RunResult where
  runId : Text
  status : RunStatus
  jobs : List JobResult
  branch : Text
  startedAt : Stamp
  finishedAt : Stamp
  deriving DecidableEq, Repr

/-- A step that was never attempted. -/
def StepResult.skipped (index : Nat) (displayName : Text) : StepResult :=
  { index := index
    displayName := displayName
    status := .skipped
    exitCode := none
    durationMs := 0
    output := ""
    truncated := false }

/-- The status of a run: a failure or a timeout of any job fails it, else a canceled job cancels
it. -/
def verdict (statuses : List JobStatus) : RunStatus :=
  if statuses.any fun s => s = .failed || s = .timedOut then .failed
  else if statuses.contains .canceled then .canceled
  else .success

/-- The code for success. -/
def exitSuccess : Int := 0

/-- The code for failure. -/
def exitFailed : Int := 1

/-- The code for a configuration that cannot be used. -/
def exitMisconfigured : Int := 2

/-- The code for a canceled run. -/
def exitCanceled : Int := 130

/-- The exit code for a run. -/
def RunStatus.exitCode : RunStatus → Int
  | success => exitSuccess
  | skipped => exitSuccess
  | canceled => exitCanceled
  | failed => exitFailed

/-- The exit code of a run is that of success iff the run succeeded or was skipped. -/
theorem RunStatus.exitCode_eq_success_iff (s : RunStatus) :
    s.exitCode = exitSuccess ↔ s = .success ∨ s = .skipped := by
  cases s <;> simp [exitCode, exitSuccess, exitFailed, exitCanceled]

end Conveyor
