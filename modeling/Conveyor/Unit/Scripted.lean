import Conveyor.Script.Rehearsal
import Conveyor.Unit.Basic

/-!
# Scripted units

A provisioner that follows a plan, for rehearsing what a run makes of slow, failing and stubborn
platforms.

- `ProvisionPlan`: delays and failures, by job or by image.
- `ProvisionPlan.provisioner`: the provisioner that follows the plan.
- `rehearse`: the executor that performs rehearsal scripts.
-/

namespace Conveyor

/-- Delays (in milliseconds) and failures, by job id or by image. -/
structure ProvisionPlan where
  /-- Images that cannot be provided, with the reason. -/
  fail : Bindings
  /-- Images on which acquiring breaks. -/
  crash : Bindings
  acquireMs : List (Text × Nat)
  releaseMs : List (Text × Nat)
  /-- Jobs whose release breaks. -/
  releaseFail : Bindings
  /-- Jobs whose acquisition goes on when it is interrupted. -/
  acquireSwallow : List Text
  /-- Jobs whose unit has unreadable variables. -/
  brokenUnit : Bindings
  deriving Repr

namespace ProvisionPlan

/-- The plan in which nothing is slow and nothing fails. -/
def smooth : ProvisionPlan := ⟨[], [], [], [], [], [], []⟩

/-- The variables of a scripted unit. -/
def unitEnv : Bindings := [(tempDirVariable, "/vtmp/fake"), ("UNIT", "unit")]

/-- The unit of a job. -/
def unitFor (p : ProvisionPlan) (i : JobInstance) : ExecutionUnit :=
  { jobId := i.id
    platform := i.platform
    workdir := "/"
    tempDir := "/vtmp/fake"
    env :=
      match p.brokenUnit.get? i.id with
      | some reason => .error reason
      | none => .ok unitEnv
    containerId := none }

/-- Acquire a unit once the delay is over. -/
def acquireNow (p : ProvisionPlan) (i : JobInstance) : Activity Deed ExecutionUnit :=
  let image := i.platform.imageText
  match p.fail.get? image, p.crash.get? image with
  | some reason, _ => .fail (.refused reason)
  | none, some reason => .fail (.crashed reason)
  | none, none => .done (p.unitFor i)

/-- Acquire a unit. -/
def acquire (p : ProvisionPlan) (i : JobInstance) : Activity Deed ExecutionUnit :=
  match p.acquireMs.lookup i.id with
  | none => p.acquireNow i
  | some ms =>
    .wait (ms * nanosPerMilli) fun cut =>
      if cut && !p.acquireSwallow.contains i.id then .yield else p.acquireNow i

/-- Release a unit once the delay is over. -/
def releaseNow (p : ProvisionPlan) (u : ExecutionUnit) : Activity Deed Unit :=
  match p.releaseFail.get? u.jobId with
  | some reason => .fail (.crashed reason)
  | none => .done ()

/-- Release a unit. -/
def release (p : ProvisionPlan) (u : ExecutionUnit) : Activity Deed Unit :=
  match p.releaseMs.lookup u.jobId with
  | none => p.releaseNow u
  | some ms => (Activity.pause (ms * nanosPerMilli)).bind fun _ => p.releaseNow u

/-- The provisioner that follows the plan. -/
def provisioner (p : ProvisionPlan) : Provisioner := ⟨p.acquire, p.release⟩

end ProvisionPlan

/-- The executor that performs rehearsal scripts. -/
def rehearse (onCancel : Activity Deed Unit) : Executor :=
  fun _ _ script env => perform onCancel env (readScript script)

end Conveyor
