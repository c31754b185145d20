import Conveyor.Proofs.Schedule.Awaiting
import Conveyor.Unit.Scripted

/-!
# Rehearsed schedules

A schedule that is over was advanced by a number of moves. Given that number, all of it can be
computed.

- `Engine.advanceIn`, `Engine.reportIn`: advance a floor by a bounded number of moves.
- `Engine.reportSchedule_of_reportIn`: **what is found so is what is reported.**
- `Engine.rehearsal`, `JobInstance.rehearsal`: engines and jobs whose scripts are performed.
- `brokenReceiver`, `slowReceiver`: receivers that fail.
-/

namespace Conveyor

variable {σ : Type}

namespace Engine

variable {e : Engine} {n : Nat} {fl fl' : Floor σ} {jobs : List JobInstance}

/-- Turn after turn, until the scheduler goes on, but no more than a number of them. -/
def advanceIn (e : Engine) : Nat → Floor σ → Option (Floor σ)
  | 0, _ => none
  | n + 1, fl =>
    match fl.ready with
    | .scheduler :: rest => some { fl with ready := rest }
    | t :: rest => e.advanceIn n (e.step t { fl with ready := rest })
    | [] =>
      match fl.nextRound with
      | some fl' => e.advanceIn n fl'
      | none => none

theorem advance_of_advanceIn (h : e.advanceIn n fl = some fl') :
    e.advance Turn.isScheduler fl = some fl' := by
  induction n generalizing fl with
  | zero => cases h
  | succ n ih =>
    unfold advanceIn at h
    split at h
    · rename_i rest hr
      exact (e.advance_scheduler hr).trans h
    · rename_i t rest other hr
      exact (e.advance_of_moves (.turn hr other)).trans (ih h)
    · rename_i hr
      split at h
      · rename_i fl'' hnext
        exact (e.advance_of_moves (.round hr hnext)).trans (ih h)
      · cases h

/-- Run jobs on a floor by no more than a number of moves, and report. -/
def reportIn (e : Engine) (n : Nat) (jobs : List JobInstance) (fl : Floor σ) :
    Option (ScheduleReport × Floor σ) :=
  (e.advanceIn n (e.staff jobs fl)).map fun m => (m.reportOf jobs, m.forget)

theorem reportSchedule_of_reportIn {r : ScheduleReport × Floor σ} (hjobs : jobs.isEmpty = false)
    (h : e.reportIn n jobs fl = some r) : e.reportSchedule jobs fl = some r := by
  obtain ⟨m, hm, rfl⟩ := Option.map_eq_some_iff.1 h
  unfold reportSchedule schedule
  rw [hjobs, if_neg Bool.false_ne_true, advance_of_advanceIn hm]
  rfl

/-- An engine whose units follow a plan and whose scripts are performed. -/
def rehearsal (plan : ProvisionPlan) (workers : Int) : Engine :=
  { provisioner := plan.provisioner
    executor := rehearse (.cancel (.done ()))
    maxConcurrency := workers
    outputLimit := 100
    graceSeconds := .ofInt 5
    epoch := 0 }

end Engine

/-- A job with a time limit in seconds and one step for each script. -/
def JobInstance.rehearsal (id image : Text) (limit : Binary64) (scripts : List Text) :
    JobInstance :=
  { id := id
    templateName := id
    variant := none
    timeoutSeconds := limit
    platform := ⟨.text "", some image⟩
    env := []
    steps := scripts.map fun script => ⟨script, script, [], []⟩ }

/-- A receiver that fails whenever it is told a result. -/
def brokenReceiver : Receiver Unit := fun _ => .finish (.failed (.crashed "sink down"))

/-- A receiver that does so only after five milliseconds. -/
def slowReceiver : Receiver Unit := fun r => .wait 5000000 fun _ => brokenReceiver r

/-- An empty floor whose results this receiver is told. -/
def Floor.telling (receiver : Receiver Unit) : Floor Unit :=
  { Floor.start 0 0 () with receiver := receiver }

theorem Engine.opens_telling (e : Engine) (receiver : Receiver Unit) :
    e.Opens (.telling receiver) :=
  .tell (.start 0 0 ()) receiver ()

end Conveyor
