import Conveyor.Activity.Basic
import Conveyor.Text.Utf8

/-!
# Processes

What the engine sees of the processes it spawns: bytes on two streams, time that passes, and an
exit code. The host decides how each process behaves.

- `ProcessEvent`, `ProcessPlay`: the behaviour of one process.
- `Host`: the behaviour of the `n`-th process, by its command line.
- `Host.stream`: run a command and pass its output on as it comes; an interruption kills it.
- `Host.converse`: run a command and read its output when it is over.
-/

namespace Conveyor

/-- One thing that a process does. -/
inductive ProcessEvent where
  /-- It writes to its standard output. -/
  | out (bytes : List UInt8)
  /-- It writes to its standard error. -/
  | err (bytes : List UInt8)
  /-- It takes some nanoseconds. -/
  | pause (span : Nat)
  /-- It sends the engine a signal to stop. -/
  | signal
  deriving DecidableEq, Repr

/-- What a process does, and its exit code. -/
structure ProcessPlay where
  events : List ProcessEvent
  exitCode : Int
  deriving DecidableEq, Repr

/-- A command line, and the environment it is given if that is not the engine's own. -/
structure Invocation where
  argv : List Text
  env : Option Bindings
  deriving DecidableEq, Repr

/-- A machine that can run processes. -/
structure Host where
  /-- The behaviour of the `n`-th process, or why it cannot be spawned. -/
  spawn : Nat → Invocation → Except Text ProcessPlay
  /-- Can a whole group of processes be killed? -/
  killsGroups : Bool

/-- What a finished command leaves behind. -/
structure Reply where
  out : List UInt8
  err : List UInt8
  exitCode : Int
  deriving DecidableEq, Repr

/-- What the log says when the cancellation of the run is asked for. -/
def cancellationMessage : Text := "Run cancellation requested"

/-- Ask for the run to be canceled. -/
def requestCancellation : Activity Deed Unit :=
  .note (.log .info cancellationMessage) (.cancel (.done ()))

namespace ProcessPlay

/-- The output of a process as it comes, decoded piece by piece. -/
def streamFrom (killsGroups : Bool) (exitCode : Int) :
    Text.Utf8.State → List ProcessEvent → Activity Deed Int
  | s, [] => .note (.wrote (Text.Utf8.shown (Text.Utf8.flush s))) (.done exitCode)
  | s, .out bytes :: rest =>
    let (s', cs) := Text.Utf8.run s bytes
    .note (.wrote (Text.Utf8.shown cs)) (streamFrom killsGroups exitCode s' rest)
  | s, .err bytes :: rest =>
    let (s', cs) := Text.Utf8.run s bytes
    .note (.wrote (Text.Utf8.shown cs)) (streamFrom killsGroups exitCode s' rest)
  | s, .pause span :: rest =>
    .wait span fun cut =>
      if cut then .note (.killed killsGroups) .yield else streamFrom killsGroups exitCode s rest
  | s, .signal :: rest =>
    requestCancellation.andThen fun _ => streamFrom killsGroups exitCode s rest

/-- Wait for a process to end, and put its output together. -/
def replyFrom (exitCode : Int) (out err : List UInt8) : List ProcessEvent → Activity Deed Reply
  | [] => .done ⟨out, err, exitCode⟩
  | .out bytes :: rest => replyFrom exitCode (out ++ bytes) err rest
  | .err bytes :: rest => replyFrom exitCode out (err ++ bytes) rest
  | .pause span :: rest =>
    .wait span fun cut => if cut then .yield else replyFrom exitCode out err rest
  | .signal :: rest => requestCancellation.andThen fun _ => replyFrom exitCode out err rest

end ProcessPlay

namespace Host

/-- Spawn a process. -/
def launch (h : Host) (c : Invocation) : Activity Deed ProcessPlay := do
  let n ← Activity.next .processes
  Activity.tell (.spawned c.argv)
  match h.spawn n c with
  | .ok play => Activity.done play
  | .error reason => Activity.fail (.spawnRefused reason)

/-- Run a command and pass its output on as it comes. -/
def stream (h : Host) (c : Invocation) : Activity Deed Int :=
  (h.launch c).andThen fun
    | .done play => play.events |> ProcessPlay.streamFrom h.killsGroups play.exitCode .start
    | .failed (.spawnRefused reason) => .fail (.notLaunched (c.argv.headD "") reason)
    | .failed fault => .fail fault
    | .interrupted => .yield

/-- Run a command and read its output when it is over. -/
def converse (h : Host) (argv : List Text) : Activity Deed Reply := do
  let play ← h.launch ⟨argv, none⟩
  ProcessPlay.replyFrom play.exitCode [] [] play.events

end Host

end Conveyor
