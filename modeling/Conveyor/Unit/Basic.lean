import Conveyor.Activity.Basic
import Conveyor.Job.Instance

/-!
# Execution units

A job runs in a unit that is acquired for it alone and released when the job is over.

- `ExecutionUnit`: the unit of one job.
- `Provisioner`: acquires and releases units.
- `Executor`: runs a script in a unit.
-/

namespace Conveyor

/-- The context of one job. -/
structure ExecutionUnit where
  jobId : Text
  platform : Platform
  /-- Where scripts run. -/
  workdir : Text
  /-- A directory of the job's own. -/
  tempDir : Text
  /-- The variables of the unit, or why reading them breaks. -/
  env : Except Text Bindings
  containerId : Option Text

/-- Hands out units. -/
structure Provisioner where
  acquire : JobInstance → Activity Deed ExecutionUnit
  release : ExecutionUnit → Activity Deed Unit

/-- Runs a script in a unit, in a complete environment; the result is the exit code. What a
script finds in the unit may depend on how many scripts were run in it before. -/
abbrev Executor :=
  ExecutionUnit → (ran : Nat) → (script : Text) → (env : Bindings) → Activity Deed Int

/-- The variable that names a job's own directory. -/
def tempDirVariable : Text := "PIPELINE_TEMP_DIR"

/-- The image that a platform asks for: that of the container, else that of the pool. -/
def Platform.imageText (p : Platform) : Text :=
  match p.containerImage with
  | some image => if image = "" then p.poolImage.plainText else image
  | none => p.poolImage.plainText

end Conveyor
