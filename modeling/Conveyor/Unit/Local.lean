import Conveyor.Process.Basic
import Conveyor.Unit.Basic
import Conveyor.Unit.Directory

/-!
# Units on the host itself

Jobs run directly on the host: scripts share the workspace, and each job has a temporary
directory of its own. Containers are not provided.

- `LocalHost`: the workspace, and the pool images that the host stands in for.
- `LocalHost.provisioner`: acquires and releases units.
- `shellExecutor`: runs scripts with a shell.
-/

namespace Conveyor

open Activity

/-- Does a host that stands in for some images (`none`: for any) stand in for this one? A list or
a mapping cannot be looked up. -/
def standsInFor (images : Option (List Text)) (image : Value) : Except Fault Bool :=
  match images with
  | none => .ok true
  | some known =>
    match image with
    | .text s => .ok (known.contains s)
    | .set _ => .ok false
    | other => if other.isKey then .ok false else .error (.poolImageKind other.typeName)

/-- A host that runs jobs itself. -/
structure LocalHost where
  /-- The absolute path of the directory in which scripts run. -/
  workspace : Text
  /-- The pool images that the host stands in for; `none` is any. -/
  poolImages : Option (List Text)
  deriving DecidableEq, Repr

namespace LocalHost

/-- Why the host cannot provide a platform, if it cannot. -/
def refusal? (h : LocalHost) (p : Platform) : Option Fault :=
  match p.containerImage with
  | some image => if image = "" then noPool else some (.containerUnsupported image)
  | none => noPool
where
  /-- The host lacks the pool image or the workspace. -/
  noPool : Option Fault :=
    match standsInFor h.poolImages p.poolImage with
    | .error fault => some fault
    | .ok false => some (.poolUnavailable p.poolImage.plainText "this host")
    | .ok true =>
      match lookDirectory h.workspace with
      | .found => none
      | .absent => some (.workspaceMissing h.workspace)
      | .tooLong => some (.pathTooLong h.workspace)

/-- Acquire a unit. -/
def acquire (h : LocalHost) (i : JobInstance) : Activity Deed ExecutionUnit :=
  match h.refusal? i.platform with
  | some fault => fail fault
  | none => do
    let tempDir := tempDirFor i.id
    tell (.made tempDir)
    log .debug ("Acquired local unit for job " ++ i.id ++ " (" ++ tempDir ++ ")")
    Activity.done
      { jobId := i.id
        platform := i.platform
        workdir := h.workspace
        tempDir := tempDir
        env := .ok [(tempDirVariable, tempDir)]
        containerId := none }

/-- Release a unit. -/
def release (u : ExecutionUnit) : Activity Deed Unit := do
  tell (.removed u.tempDir)
  log .debug ("Released local unit for job " ++ u.jobId)

/-- The provisioner of the host. -/
def provisioner (h : LocalHost) : Provisioner := ⟨h.acquire, release⟩

end LocalHost

/-- The shell that runs scripts. -/
def defaultShell : Text := "/bin/sh"

/-- Runs scripts with a shell. -/
def shellExecutor (host : Host) (shell : Text) : Executor :=
  fun _ _ script env => host.stream ⟨[shell, "-c", script], some env⟩

end Conveyor
