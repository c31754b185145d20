import Conveyor.Activity.Clock
import Conveyor.Job.Environment
import Conveyor.Unit.Basic

/-!
# Running the steps of a job

The steps of a job run one after another, and the first that fails is the last that runs.

- `StepContext`: the unit, the executor and the limits of one job.
- `StepContext.runStep`: one step, with its result.
- `StepContext.runSteps`: all steps. Every step gets a result, also if the job is interrupted:
  what was never attempted is recorded as skipped.
-/

namespace Conveyor

open Activity

/-- What the steps of a job share. -/
structure StepContext where
  unit : ExecutionUnit
  execute : Executor
  outputLimit : Int
  /-- Is the cancellation of the run looked at between steps? -/
  watchesCancel : Bool

/-- The result of a step that the executor is done with. -/
def StepResult.ofEnding (index : Nat) (step : StepSpec) (durationMs : Nat)
    (output : OutputBuffer) :
    Ending Int → StepResult
  | .done code =>
    { index := index
      displayName := step.displayName
      status := if code = 0 then .success else .failed
      exitCode := some code
      durationMs := durationMs
      output := output.text
      truncated := output.truncated }
  | .failed fault =>
    let output := output.write (fault.message ++ "\n").toList
    { index := index
      displayName := step.displayName
      status := .failed
      exitCode := fault.ofStep?.getD none
      durationMs := durationMs
      output := output.text
      truncated := output.truncated }
  | .interrupted =>
    { index := index
      displayName := step.displayName
      status := .interrupted
      exitCode := none
      durationMs := durationMs
      output := output.text
      truncated := output.truncated }

/-- The exit code of a step as the log shows it. -/
def shownExitCode : Option Int → Text
  | some code => Int.repr code
  | none => "None"

/-- The results of steps that were never attempted; the first has the given index. -/
def skippedFrom : Nat → List StepSpec → List StepResult
  | _, [] => []
  | index, step :: rest => .skipped index step.displayName :: skippedFrom (index + 1) rest

/-- Record results. -/
def recordAll : List StepResult → Activity StepNote Unit
  | [] => .done ()
  | r :: rest => .note (.recorded r) (recordAll rest)

namespace StepContext

/-- What the log says of a step that ended. -/
def logEnding (c : StepContext) (step : StepSpec) : Ending Int → Activity StepNote Unit
  | .failed fault =>
    match fault.ofStep? with
    | some _ => .done ()
    | none =>
      log .error
        ("[" ++ c.unit.jobId ++ "] Executor failed during \x27" ++ step.displayName ++
            "\x27: " ++
          fault.message)
  | _ => .done ()

/-- Run one step. The second part of the result says whether the step was interrupted. -/
def runStep (c : StepContext) (index : Nat) (step : StepSpec) (baseEnv : Bindings) :
    Activity StepNote (StepResult × Bool) := do
  let env := stepEnv baseEnv step
  let started ← now
  tell (.began step.script env)
  let (output, ending) ← collect (.empty c.outputLimit) (c.execute c.unit index step.script env)
  tell .ended
  let finished ← now
  c.logEnding step ending
  let result := StepResult.ofEnding index step ((finished - started) / nanosPerMilli)
    output ending
  Activity.done (result, match ending with
    | .interrupted => true
    | _ => false)

/-- Run steps of which the first has the given index. -/
def runFrom (c : StepContext) (baseEnv : Bindings) : Nat → List StepSpec → Activity StepNote Bool
  | _, [] => Activity.done true
  | index, step :: rest => do
    let canceled ← if c.watchesCancel then isCanceled else Activity.done false
    if canceled then
      recordAll (skippedFrom index (step :: rest))
      fail (.canceledBefore c.unit.jobId step.displayName)
    else
      log .info ("[" ++ c.unit.jobId ++ "] ▶ " ++ step.displayName)
      let (result, interrupted) ← c.runStep index step baseEnv
      tell (.recorded result)
      if interrupted then
        recordAll (skippedFrom (index + 1) rest)
        yield
      else if result.status = .success then
        c.runFrom baseEnv (index + 1) rest
      else
        log .info
          ("[" ++ c.unit.jobId ++ "] ✗ " ++ step.displayName ++ " (exit=" ++
            shownExitCode result.exitCode ++ ")")
        recordAll (skippedFrom (index + 1) rest)
        Activity.done false

/-- Run all steps of a job. The result says whether all of them succeeded. -/
def runSteps (c : StepContext) (jobEnv : Bindings) (steps : List StepSpec) :
    Activity StepNote Bool :=
  match c.unit.env with
  | .error reason => fail (.crashed reason)
  | .ok unitEnv => c.runFrom (unitEnv.update jobEnv) 0 steps

end StepContext

end Conveyor
