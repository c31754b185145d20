import Conveyor.Activity.Names
import Conveyor.Process.Basic
import Conveyor.Text.Blank
import Conveyor.Text.Pieces

/-!
# Containers

Containers are managed through the command line of a container engine: create, start, execute,
remove.

- `ContainerEngine`: the command, and how containers are named.
- `ContainerEngine.create`, `.start`, `.remove`: one command each; a command that exits with an
  error is a fault.
- `ContainerEngine.cleanUp`: remove by force; a failure is only logged.
- `ContainerEngine.execCommand`: the command line that runs a script in a container.
-/

namespace Conveyor

open Activity

/-- Where the workspace is seen inside a container. -/
def containerWorkspace : Text := "/workspace"

/-- Where a job's temporary directory is seen inside a container. -/
def containerTempDir : Text := "/pipeline/tmp"

/-- A container engine on a host. -/
structure ContainerEngine where
  host : Host
  /-- How the names of containers start. -/
  namePrefix : Text
  /-- The command. -/
  command : Text

/-- Bytes as a text. -/
def textOfBytes (bytes : List UInt8) : Activity Deed (List CodePoint) :=
  match Text.Utf8.decodeStrict bytes with
  | .ok cs => Activity.done (cs.map .char)
  | .error part => fail (.undecodable part)

namespace ContainerEngine

/-- A name for a new container. -/
def newName (c : ContainerEngine) : Activity Deed Text := do
  let n ← Activity.next .names
  Activity.done (c.namePrefix ++ freshName n)

/-- The command line that creates a container which idles until scripts are executed in it. -/
def createCommand (c : ContainerEngine) (name image : Text) (volumes : Bindings)
    (workdir : Text) : List Text :=
  ([c.command, "create", "--name", name, "-w", workdir] : List Text) ++
    volumes.flatMap (fun v : Text × Text => [("-v" : Text), v.1 ++ ":" ++ v.2]) ++
      ([image, "sleep", "infinity"] : List Text)

/-- Create a container. The result is its id. -/
def create (c : ContainerEngine) (name image : Text) (volumes : Bindings) (workdir : Text) :
    Activity Deed Text := do
  let reply ← c.host.converse (c.createCommand name image volumes workdir)
  if reply.exitCode = 0 then
    let out ← textOfBytes reply.out
    Activity.done (Text.ofList (Text.trim out))
  else
    let complaint ← textOfBytes reply.err
    fail (.commandFailed "create" (Text.ofList complaint))

/-- Start a created container. -/
def start (c : ContainerEngine) (id : Text) : Activity Deed Unit := do
  let reply ← c.host.converse [c.command, "start", id]
  if reply.exitCode = 0 then Activity.done ()
  else
    let complaint ← textOfBytes reply.err
    fail (.commandFailed "start" (Text.ofList complaint))

/-- The command line that runs a script in a container. -/
def execCommand (c : ContainerEngine) (id script : Text) (env : Bindings) (workdir : Text) :
    List Text :=
  ([c.command, "exec", "-w", workdir] : List Text) ++
    env.flatMap (fun e : Text × Text => [("-e" : Text), e.1 ++ "=" ++ e.2]) ++
    ([id, "/bin/sh", "-c", script] : List Text)

/-- What the engine says of a container that is not there. -/
def absentMessage : Text := "No such container"

/-- Remove a container. One that is not there counts as removed. -/
def remove (c : ContainerEngine) (id : Text) (force : Bool) : Activity Deed Unit := do
  let reply ← c.host.converse
    ([c.command, "rm"] ++ (if force then [("--force" : Text)] else []) ++ [id])
  if reply.exitCode = 0 then Activity.done ()
  else
    let complaint ← textOfBytes reply.err
    if Text.contains absentMessage.toList complaint then Activity.done ()
    else fail (.commandFailed "remove" (Text.ofList complaint))

/-- Remove a container by force; a failure is only logged. -/
def cleanUp (c : ContainerEngine) (id : Text) : Activity Deed Unit := do
  match ← attempt (c.remove id true) with
  | .done () => Activity.done ()
  | .failed fault =>
    log .error ("Failed to clean up container " ++ id ++ ": " ++ fault.message)
  | .interrupted => yield

end ContainerEngine

end Conveyor
