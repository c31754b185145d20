import Conveyor.Activity.Clock
import Conveyor.Step.Runner

/-!
# Engines

- `Engine`: the parties and limits of a run.
- `Engine.stampAt`: the wall clock at a time of the run's clock.
- `Engine.concurrencyFault?`: why an engine cannot run anything.
-/

namespace Conveyor

/-- The parties and limits of a run. -/
structure Engine where
  provisioner : Provisioner
  executor : Executor
  /-- How many jobs may be in progress at once. -/
  maxConcurrency : Int
  outputLimit : Int
  /-- How many seconds a unit's release may take. -/
  graceSeconds : Binary64
  /-- The wall clock at time zero, in microseconds of the calendar. -/
  epoch : Nat

namespace Engine

/-- The grace period. -/
def grace (e : Engine) : Span := .ofSeconds e.graceSeconds

/-- How long an interrupted job is waited for: the grace period and a second. -/
def patience (e : Engine) : Span := .ofSeconds (e.graceSeconds.add (.ofInt 1))

/-- The wall clock at a time. -/
def stampAt (e : Engine) (time : Nat) : Stamp := .ofMicros (e.epoch + time / nanosPerMicro)

/-- What the steps of a job in a unit share. -/
def context (e : Engine) (u : ExecutionUnit) : StepContext :=
  { unit := u
    execute := e.executor
    outputLimit := e.outputLimit
    watchesCancel := true }

/-- Why a schedule cannot be started: there must be at least one worker. -/
def concurrencyFault? (e : Engine) : Option Text :=
  if e.maxConcurrency < 1 then
    some ("max_concurrency must be at least 1, got " ++ Int.repr e.maxConcurrency)
  else none

end Engine

end Conveyor
