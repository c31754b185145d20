import Conveyor.Schedule.Desk
import Conveyor.Schedule.Engine

/-!
# The body of a job

The body acquires a unit, runs the steps in it, and has it released, however the steps end. The
release has a turn of its own, so that the body can give it up when its grace period is over.

- `Engine.bodyTurn`: one turn of the body of a flight.
- `Desk.releaseTurn`: one turn of the release of a flight's unit.
- `Desk.watchTurn`: one turn of the watch for the cancellation of the run.
- `Engine.cueTurn`: one turn on a flight.
-/

namespace Conveyor

/-- The index of the step result that tells of a failure to provide the platform. -/
def provisioningIndex : Int := -1

/-- The step result that tells of a failure to provide the platform. -/
def StepResult.unprovisioned (i : JobInstance) (fault : Fault) : StepResult :=
  { index := provisioningIndex
    displayName := "Provision " ++ i.platform.imageText
    status := .failed
    exitCode := none
    durationMs := 0
    output := fault.message ++ "\n"
    truncated := false }

namespace Desk

/-- A body waits: for a while, or only for its next turn. -/
def pauseBody (state : Body) (span : Nat) (d : Desk) : Desk :=
  let d' := d.edit fun x => { x with body := state }
  if span = 0 then d'.callBody else d'.setTimer (.finite span) .body

/-- A release waits: for a while, or only for its next turn. -/
def pauseRelease (next : Bool → Activity Deed Unit) (span : Nat) (d : Desk) : Desk :=
  let d' := d.edit fun x => { x with release := .waiting next }
  if span = 0 then d'.callRelease else d'.setTimer (.finite span) .release

/-- A body is over; its worker will learn of it if it still waits. -/
def endBody (ending : Ending JobStatus) (d : Desk) : Desk :=
  let d' := d.edit fun x => { x with body := .ended ending }
  match d.post.vigil? with
  | some vigil => d'.push (.bodyOver vigil)
  | none => d'

/-- A release is over; the body will learn of it. -/
def endRelease (ending : Ending Unit) (d : Desk) : Desk :=
  let told :=
    match ending with
    | .done () => d.see .released
    | _ => d
  (told.edit fun x => { x with release := .ended ending }).push .releaseOver

/-- What a turn of a release leads to. -/
def afterRelease (s : Stretch Deed Unit) (d : Desk) : Desk :=
  match s.rest with
  | .ended ending => (d.absorb s).endRelease ending
  | .waiting span next => (d.absorb s).pauseRelease next span

/-- One turn of the release of a flight's unit. -/
def releaseTurn (d : Desk) : Desk :=
  let cut : Bool := d.flight.releaseCall = .cut
  let d' := d.edit fun x => { x with releaseCall := .idle }
  match d.flight.release with
  | .fresh act =>
    if cut then d'.endRelease .interrupted
    else (d'.see .releasing).afterRelease (act.proceed d.around)
  | .waiting next => d'.afterRelease ((next cut).proceed d.around)
  | _ => d'

/-- The watch sees the cancellation of the run. -/
def endWatch (d : Desk) : Desk := (d.edit fun x => { x with watch := .ended }).push .watchOver

/-- The first turn of a watch, or its turn after the run was canceled. -/
def watchTurn (d : Desk) : Desk :=
  match d.flight.watch with
  | .fresh =>
    if d.around.canceled then d.endWatch else d.edit fun x => { x with watch := .waiting }
  | .called => d.endWatch
  | _ => d

/-- The body learns that its release is over, if it waits for that. -/
def releaseOverTurn (d : Desk) : Desk :=
  match d.flight.body with
  | .releasing .. => d.callBody
  | _ => d

/-- The grace period of a release is over; the body learns of it if it waits for that. -/
def graceTurn (d : Desk) : Desk :=
  match d.flight.body with
  | .releasing _ _ .inTime => d.callBody
  | _ => d

end Desk

namespace Engine

/-- Have the unit released, and then end in the way given. Without any grace the release is
interrupted before it starts. -/
def beginRelease (e : Engine) (u : ExecutionUnit) (ending : Ending JobStatus) (d : Desk) :
    Desk :=
  let act := e.provisioner.release u
  if e.graceSeconds.isNonPositive then
    (d.edit fun x =>
      { x with
        body := .releasing u ending (.cutting false)
        release := .fresh act
        releaseCall := .cut }).push .release
  else
    ((d.edit fun x =>
      { x with
        body := .releasing u ending .inTime
        release := .fresh act
        releaseCall := .called }).setTimer e.grace .grace).push .release

/-- The status of a job whose steps are over. -/
def statusOf (succeeded : Bool) : JobStatus := if succeeded then .success else .failed

/-- What a turn in the steps leads to. -/
def afterSteps (e : Engine) (u : ExecutionUnit) (s : Stretch StepNote Bool) (d : Desk) : Desk :=
  match s.rest with
  | .ended ending => e.beginRelease u (ending.map statusOf) (d.absorb s)
  | .waiting span next => (d.absorb s).pauseBody (.stepping u next) span

/-- Run the steps in an acquired unit. -/
def beginSteps (e : Engine) (u : ExecutionUnit) (d : Desk) : Desk :=
  let i := d.flight.job
  e.afterSteps u (((e.context u).runSteps i.env i.steps).proceed d.around)
    ((d.see .acquired).move .running)

/-- Keep a failure to provide the platform as the job's first result. -/
def refuse (fault : Fault) (d : Desk) : Desk :=
  let i := d.flight.job
  let r := StepResult.unprovisioned i fault
  (((d.log .error ("Job " ++ i.id ++ " provisioning failed: " ++ fault.message)).see
    (.recorded r)).edit fun x => { x with steps := x.steps ++ [r] }).endBody (.done .failed)

/-- What a turn in the acquisition leads to. -/
def afterAcquire (e : Engine) (s : Stretch Deed ExecutionUnit) (d : Desk) : Desk :=
  match s.rest with
  | .ended (.done u) => e.beginSteps u (d.absorb s)
  | .ended (.failed fault) => refuse fault (d.absorb s)
  | .ended .interrupted => (d.absorb s).endBody .interrupted
  | .waiting span next => (d.absorb s).pauseBody (.acquiring next) span

/-- What the log says of a release that failed. -/
def releaseFailure (u : ExecutionUnit) (fault : Fault) : Text :=
  "Teardown of job " ++ u.jobId ++ " failed: " ++ fault.message

/-- What the log says of a release that took too long. -/
def releaseOverdue (e : Engine) (u : ExecutionUnit) : Text :=
  "Teardown of job " ++ u.jobId ++ " exceeded " ++ e.graceSeconds.text ++ "s grace period"

/-- The body goes on after waiting for a release within its grace period. -/
def afterGrace (u : ExecutionUnit) (ending : Ending JobStatus) (cut : Bool) (d : Desk) : Desk :=
  let d' := d.dropTimer .grace
  match d.flight.release with
  | .ended (.done ()) => d'.endBody ending
  | .ended (.failed fault) => (d'.log .error (releaseFailure u fault)).endBody ending
  | .ended .interrupted => d'.endBody .interrupted
  | _ => (d'.edit fun x => { x with body := .releasing u ending (.cutting cut) }).cutRelease

/-- The body goes on after waiting for a release that was interrupted. -/
def afterCut (e : Engine) (u : ExecutionUnit) (ending : Ending JobStatus) (cut : Bool)
    (d : Desk) :
    Desk :=
  if cut then d.endBody .interrupted
  else
    match d.flight.release with
    | .ended (.done ()) => d.endBody ending
    | .ended (.failed fault) => (d.log .error (releaseFailure u fault)).endBody ending
    | .ended .interrupted => (d.log .error (e.releaseOverdue u)).endBody ending
    | _ => d

/-- One turn of the body of a flight. -/
def bodyTurn (e : Engine) (d : Desk) : Desk :=
  let cut : Bool := d.flight.bodyCall = .cut
  let d' := d.edit fun x => { x with bodyCall := .idle }
  match d.flight.body with
  | .fresh =>
    if cut then d'.endBody .interrupted
    else
      e.afterAcquire ((e.provisioner.acquire d.flight.job).proceed d.around)
        (d'.move .provisioning)
  | .acquiring next => e.afterAcquire ((next cut).proceed d.around) d'
  | .stepping u next => e.afterSteps u ((next cut).proceed d.around) d'
  | .releasing u ending .inTime => afterGrace u ending cut d'
  | .releasing u ending (.cutting passOn) => e.afterCut u ending (cut || passOn) d'
  | .ended _ => d'

/-- One turn on a flight. What its party no longer waits for is nothing to it. -/
def cueTurn (e : Engine) : Cue → Desk → Desk
  | .body => e.bodyTurn
  | .release => Desk.releaseTurn
  | .watch => Desk.watchTurn
  | .bodyOver vigil => Desk.callWorker vigil
  | .watchOver => Desk.callWorker .watching
  | .releaseOver => Desk.releaseOverTurn
  | .bell .body => Desk.callBody
  | .bell .release => Desk.callRelease
  | .bell .grace => Desk.graceTurn
  | .bell .timeout => Desk.callWorker .watching
  | .bell .patience => Desk.callWorker .preempting

end Engine

end Conveyor
