import Conveyor.Container.Manager
import Conveyor.Unit.Local

/-!
# Units in containers

Each job has a container of its own, with the workspace and the job's temporary directory
mounted.

- `ContainerHost`: the engine, the workspace, the default image, and the pool images that the
  host stands in for.
- `ContainerHost.acquire`: create and start a container; if that fails or is interrupted, what
  was made so far is discarded.
- `ContainerHost.release`: remove the container and the temporary directory.
- `containerExecutor`: runs scripts in the unit's container.
-/

namespace Conveyor

open Activity

/-- The pool images that a container host stands in for unless configured otherwise. -/
def linuxPoolImages : List Text := ["default", "ubuntu-latest"]

/-- The image of jobs that name none. -/
def defaultContainerImage : Text := "python:3.12-slim"

/-- How the names of containers start unless configured otherwise. -/
def defaultNamePrefix : Text := "pipeline_"

/-- The command of the container engine. -/
def defaultEngineCommand : Text := "docker"

/-- A host that runs each job in a container. -/
structure ContainerHost where
  engine : ContainerEngine
  /-- The absolute path of the directory that is mounted. -/
  workspace : Text
  defaultImage : Text
  /-- The pool images that the host stands in for; `none` is any. -/
  poolImages : Option (List Text)

namespace ContainerHost

/-- Remove what was made for a unit that will not be. -/
def discard (h : ContainerHost) (name tempDir : Text) : Activity Deed Unit := do
  h.engine.cleanUp name
  tell (.removed tempDir)

/-- The image for a platform. -/
def imageFor (h : ContainerHost) (p : Platform) : Text :=
  match p.containerImage with
  | some image => if image = "" then h.defaultImage else image
  | none => h.defaultImage

/-- Create and start the container of a job. The result is the id of the container. -/
def bringUp (h : ContainerHost) (name image tempDir : Text) : Activity Deed Text := do
  let volumes := Bindings.ofPairs [(h.workspace, containerWorkspace),
    (tempDir, containerTempDir)]
  let id ← h.engine.create name image volumes containerWorkspace
  h.engine.start id
  Activity.done id

/-- Acquire a unit on a host that stands in for the job's pool image. -/
def acquireContainer (h : ContainerHost) (i : JobInstance) : Activity Deed ExecutionUnit := do
  let image := h.imageFor i.platform
  let tempDir := tempDirFor i.id
  tell (.made tempDir)
  let name ← h.engine.newName
  match ← attempt (h.bringUp name image tempDir) with
  | .done id =>
    log .info ("Job " ++ i.id ++ " running in container " ++ name ++ " (" ++ image ++ ")")
    Activity.done
      { jobId := i.id
        platform := i.platform
        workdir := containerWorkspace
        tempDir := tempDir
        env := .ok [(tempDirVariable, containerTempDir)]
        containerId := some id }
  | .failed (.commandFailed action complaint) =>
    h.discard name tempDir
    fail (.unprovisionable image i.id (Fault.commandFailed action complaint).message)
  | .failed fault => fail fault
  | .interrupted =>
    h.discard name tempDir
    yield

/-- Acquire a unit. -/
def acquire (h : ContainerHost) (i : JobInstance) : Activity Deed ExecutionUnit :=
  match standsInFor h.poolImages i.platform.poolImage with
  | .error fault => fail fault
  | .ok false => fail (.poolUnavailable i.platform.poolImage.plainText "this Docker host")
  | .ok true => h.acquireContainer i

/-- Release a unit. -/
def release (h : ContainerHost) (u : ExecutionUnit) : Activity Deed Unit := do
  match u.containerId with
  | some id => if id = "" then Activity.done () else h.engine.cleanUp id
  | none => Activity.done ()
  tell (.removed u.tempDir)

/-- The provisioner of the host. -/
def provisioner (h : ContainerHost) : Provisioner := ⟨h.acquire, h.release⟩

end ContainerHost

/-- Runs scripts in the unit's container. -/
def containerExecutor (engine : ContainerEngine) : Executor :=
  fun u _ script env =>
    match u.containerId with
    | some id =>
      if id = "" then fail (.noContainer u.jobId)
      else engine.host.stream ⟨engine.execCommand id script env u.workdir, none⟩
    | none => fail (.noContainer u.jobId)

end Conveyor
