import Conveyor.Command.Settings
import Conveyor.Schedule.Engine

/-!
# Backends

Jobs run on the host itself or in containers, as the settings say.

- `Backend`: where jobs run.
- `Backend.provisioner`, `Backend.executor`: the two halves that the engine needs.
- `Sources.backend?`: the backend that the settings select.
-/

namespace Conveyor

/-- Where jobs run. -/
inductive Backend where
  /-- On the host itself, with scripts run by a shell. -/
  | onHost (host : Host) (units : LocalHost)
  /-- Each in a container. -/
  | inContainers (containers : ContainerHost)

namespace Backend

/-- The provisioner of a backend. -/
def provisioner : Backend → Provisioner
  | onHost _ h => h.provisioner
  | inContainers h => h.provisioner

/-- The executor of a backend. -/
def executor : Backend → Executor
  | onHost host _ => shellExecutor host defaultShell
  | inContainers h => containerExecutor h.engine

/-- The directory in which steps run, or that is mounted. -/
def workspace : Backend → Text
  | onHost _ h => h.workspace
  | inContainers h => h.workspace

/-- The pool images that the backend stands in for; `none` is any. -/
def poolImages : Backend → Option (List Text)
  | onHost _ h => h.poolImages
  | inContainers h => h.poolImages

end Backend

/-- The backend that the settings select; none if the path of the workspace cannot be one. -/
def Sources.backend? (s : Sources) (host : Host) : Warned (Option Backend) :=
  let kind := s.provisionerKind
  let backend := (resolveWorkspace? s.workspace).map fun workspace =>
    match kind.value with
    | .onHost => Backend.onHost host ⟨workspace, s.poolImages⟩
    | .inContainers => Backend.inContainers
      { engine := ⟨host, s.containerPrefix, defaultEngineCommand⟩
        workspace := workspace
        defaultImage := s.defaultImage
        poolImages := some (s.poolImages.getD linuxPoolImages) }
  ⟨backend, kind.warnings⟩

end Conveyor
