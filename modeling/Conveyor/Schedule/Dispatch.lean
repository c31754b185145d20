import Conveyor.Schedule.Worker

/-!
# Dispatching jobs

A bounded number of workers takes jobs in order. The scheduler goes on when all of them are done,
or as soon as one of them is stopped.

- `Engine.step`: one turn on the floor.
- `Engine.advance`: turn after turn, until one comes up at which to halt.
- `Engine.schedule`: run some jobs on a floor.
- `ScheduleEnd`: how that ends.
-/

namespace Conveyor

/-- A turn of worker `w`. -/
def Turn.isWorker (w : Nat) : Turn → Bool
  | .worker u => u = w
  | _ => false

/-- A turn of the scheduler. -/
def Turn.isScheduler : Turn → Bool
  | .scheduler => true
  | _ => false

namespace Floor

variable {σ : Type}

/-- The scheduler learns that a worker is done. -/
def workerDoneTurn (w : Nat) (fl : Floor σ) : Floor σ :=
  let fl' := { fl with doneCount := fl.doneCount + 1 }
  match (fl.workers[w]?).map Worker.duty with
  | some (.done true) => fl'.callScheduler
  | _ => if fl'.doneCount = fl'.workers.length then fl'.callScheduler else fl'

/-- The whole schedule is stopped: all workers are interrupted that are not done. If there is
none, the scheduler itself will find that it was stopped. -/
def stopTurn (fl : Floor σ) : Floor σ :=
  if fl.schedulerCall = .idle && fl.workers.any fun w => !w.duty.isDone then
    (List.range fl.workers.length).foldl (fun fl w => fl.cutWorker w) fl
  else { fl with doomed := true }

end Floor

/-- How a schedule ends. -/
inductive ScheduleEnd where
  /-- All jobs have a result. -/
  | finished
  /-- The schedule was stopped. -/
  | stopped
  deriving DecidableEq, Repr

namespace Engine

variable {σ : Type}

/-- One turn on the floor. -/
def step (e : Engine) (t : Turn) (fl : Floor σ) : Floor σ :=
  match t with
  | .flight f cue => fl.atDesk f (e.cueTurn cue)
  | .worker w => e.workerTurn w fl
  | .receiver w => fl.callTeller w
  | .workerDone w => fl.workerDoneTurn w
  | .scheduler => fl
  | .errand act => fl.disturb act
  | .stop => fl.stopTurn

/-- Turn after turn, until one comes up at which to halt. There is no answer if that never
happens. -/
def advance (e : Engine) (halts : Turn → Bool) (fl : Floor σ) : Option (Floor σ) :=
  match fl.ready with
  | t :: rest =>
    if halts t then some { fl with ready := rest }
    else e |>.advance halts (e.step t { fl with ready := rest })
  | [] =>
    match fl.nextRound with
    | some fl' => e |>.advance halts fl'
    | none => none
partial_fixpoint

/-- The floor with workers for some jobs, all of them called. -/
def staff (e : Engine) (jobs : List JobInstance) (fl : Floor σ) : Floor σ :=
  let count := min e.maxConcurrency.toNat jobs.length
  { fl with
    workers := List.replicate count ⟨.fresh, .called⟩
    queue := jobs
    doneCount := 0
    schedulerCall := .idle
    doomed := false
    later := fl.later ++ (List.range count).map .worker }

/-- How the schedule ended when the scheduler goes on. -/
def endOf (fl : Floor σ) : ScheduleEnd :=
  if fl.doomed || fl.workers.any fun w => w.duty = .done true then .stopped else .finished

/-- Run jobs on a floor. -/
def schedule (e : Engine) (jobs : List JobInstance) (fl : Floor σ) :
    Option (Floor σ × ScheduleEnd) :=
  if jobs.isEmpty then some (fl, .finished)
  else (e.advance Turn.isScheduler (e.staff jobs fl)).map fun fl' => (fl', endOf fl')

end Engine

end Conveyor
