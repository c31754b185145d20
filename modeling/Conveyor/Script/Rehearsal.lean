import Conveyor.Activity.Clock
import Conveyor.Process.Basic
import Conveyor.Script.Basic

/-!
# Rehearsing scripts

- `perform`: a script as an activity of the executor itself.
- `play`: a script as the behaviour of a process.
-/

namespace Conveyor

/-- How long a script waits that waits for its interruption. -/
def anHour : Nat := 3600 * nanosPerSecond

/-- A text many times over. -/
def repeatText : Nat → List CodePoint → List CodePoint
  | 0, _ => []
  | n + 1, cs => cs ++ repeatText n cs

/-- The line that shows a variable. -/
def variableLine (env : Bindings) (name : Text) : List CodePoint :=
  (name ++ "=" ++ (env.get? name).getD "<unset>" ++ "\n").toList

/-- A script as an activity. `onCancel` is what its `cancel` command does. -/
def perform (onCancel : Activity Deed Unit) (env : Bindings) :
    List ScriptCommand → Activity Deed Int
  | [] => .done 0
  | .echo text :: rest => .note (.wrote (text ++ "\n").toList) (perform onCancel env rest)
  | .showVariable name :: rest =>
    .note (.wrote (variableLine env name)) (perform onCancel env rest)
  | .repeated count text :: rest =>
    .note (.wrote (repeatText count text.toList)) (perform onCancel env rest)
  | .sleep ms :: rest =>
    .wait (ms * nanosPerMilli) fun cut => if cut then .yield else perform onCancel env rest
  | .exit code :: _ => .done code
  | .fail code reason :: _ => .fail (.gaveUp reason code)
  | .crash reason :: _ => .fail (.crashed reason)
  | .cancel :: rest => onCancel.andThen fun _ => perform onCancel env rest
  | .stubborn ms :: rest =>
    .wait anHour fun cut =>
      if cut then .wait (ms * nanosPerMilli) fun _ => .yield else perform onCancel env rest
  | .swallow :: rest =>
    .wait anHour fun cut =>
      if cut then .note (.wrote ("swallowed\n" : Text).toList) (perform onCancel env rest)
      else perform onCancel env rest
  | .out _ :: rest => perform onCancel env rest
  | .signal _ :: rest => perform onCancel env rest
  | .idle :: rest => perform onCancel env rest

/-- The signals that ask the engine to stop. -/
def stopSignals : List Text := ["SIGINT", "SIGTERM"]

/-- What a process writes, as an event. -/
def outText (cs : List CodePoint) : ProcessEvent := .out ((Text.ofList cs).utf8?.getD [])

/-- A script as the behaviour of a process. -/
def play (env : Bindings) : List ScriptCommand → ProcessPlay
  | [] => ⟨[], 0⟩
  | .exit code :: _ => ⟨[], code⟩
  | c :: rest =>
    let p := play env rest
    match c with
    | .echo text => { p with events := outText (text ++ "\n").toList :: p.events }
    | .showVariable name => { p with events := outText (variableLine env name) :: p.events }
    | .repeated count text =>
      { p with events := outText (repeatText count text.toList) :: p.events }
    | .out bytes => { p with events := .out bytes :: p.events }
    | .sleep ms => { p with events := .pause (ms * nanosPerMilli) :: p.events }
    | .signal name => if stopSignals.contains name then
      { p with events := .signal :: p.events } else p
    | _ => p

end Conveyor
