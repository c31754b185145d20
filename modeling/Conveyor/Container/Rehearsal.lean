import Conveyor.Container.Units
import Conveyor.Script.Rehearsal

/-!
# Rehearsing containers

A machine on which a shell and a container engine behave as planned: scripts are rehearsed, and
commands of the container engine succeed unless the plan says otherwise.

- `ContainerPlan`: what goes wrong, and how long it takes.
- `rehearsalHost`: the machine.
-/

namespace Conveyor

/-- How the container engine behaves. -/
structure ContainerPlan where
  /-- What the engine says of the images from which it cannot create containers. -/
  createComplaints : Bindings
  /-- How many nanoseconds it takes to create a container. -/
  createTime : Nat
  /-- Why no container can be started, or removed. -/
  startComplaint : Option Text
  removeComplaint : Option Text
  /-- Is the engine missing? -/
  missing : Bool
  deriving DecidableEq, Repr

namespace ContainerPlan

/-- A plan in which nothing goes wrong. -/
def smooth : ContainerPlan := ⟨[], 0, none, none, false⟩

/-- What the machine says of a command that is not there. -/
def absence (command : Text) : Text :=
  "[Errno 2] No such file or directory: " ++ Text.quoted command

/-- What a command does that takes some time first, if any. -/
def after (span : Nat) (events : List ProcessEvent) : List ProcessEvent :=
  if span = 0 then events else .pause span :: events

/-- A command that fails with a complaint, after some time. -/
def complain (span : Nat) (code : Int) (complaint : Text) : ProcessPlay :=
  ⟨after span [.err (complaint.utf8?.getD [])], code⟩

/-- A command that succeeds unless there is a complaint. -/
def answer : Option Text → ProcessPlay
  | some complaint => complain 0 1 complaint
  | none => ⟨[], 0⟩

/-- The image in a command that creates a container: the last word but two. -/
def imageIn (argv : List Text) : Text := (argv.dropLast.dropLast.getLast?).getD ""

/-- The variables that a command sets in a container. -/
def variablesIn : List Text → Bindings
  | word :: setting :: rest =>
    if word = "-e" then
      let name := setting.toList.takeWhile (· ≠ CodePoint.char '=')
      (Text.ofList name, Text.ofList (setting.toList.drop (name.length + 1))) :: variablesIn rest
    else variablesIn (setting :: rest)
  | _ => []

/-- The command that runs in a container: everything up to the container's id is its setting. -/
def settingsIn (argv : List Text) : List Text := argv.take (argv.length - 4)

/-- What the `n`-th process does, if it is a command of the container engine. -/
def play (p : ContainerPlan) (n : Nat) (argv : List Text) : ProcessPlay :=
  match (argv[1]?).bind Text.string? with
  | some "create" =>
    match p.createComplaints.get? (imageIn argv) with
    | some complaint => complain p.createTime 125 complaint
    | none => ⟨after p.createTime [.out ("cid-" ++ Nat.repr n ++ "\n").toUTF8.toList], 0⟩
  | some "start" => answer p.startComplaint
  | some "rm" => answer p.removeComplaint
  | some "exec" =>
    Conveyor.play (Bindings.ofPairs (variablesIn (settingsIn argv)))
      (readScript (argv.getLastD ""))
  | _ => ⟨[], 0⟩

end ContainerPlan

/-- A machine that rehearses. -/
def rehearsalHost (p : ContainerPlan) : Host where
  spawn n c :=
    if c.argv.head? = some defaultEngineCommand then
      if p.missing then .error (ContainerPlan.absence defaultEngineCommand)
      else .ok (p.play n c.argv)
    else .ok (play (c.env.getD []) (readScript (c.argv.getLastD "")))
  killsGroups := true

end Conveyor
