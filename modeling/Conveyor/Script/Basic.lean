import Conveyor.Number.Reading
import Conveyor.Text.Blank
import Conveyor.Text.Hex
import Conveyor.Text.Pieces

/-!
# Rehearsal scripts

The engine never looks into a script. To rehearse a pipeline without running anything, scripts
are read in a small language of their own: commands between semicolons, each a verb and what
follows the first space.

- `ScriptCommand`: the commands; a verb that is not known does nothing.
- `readScript`: the commands of a script.
-/

namespace Conveyor

/-- A command of a rehearsal script. Times are in milliseconds. -/
inductive ScriptCommand where
  /-- Write a line. -/
  | echo (text : Text)
  /-- Write the value of a variable. -/
  | showVariable (name : Text)
  /-- Write a text many times. -/
  | repeated (count : Nat) (text : Text)
  /-- Write bytes. -/
  | out (bytes : List UInt8)
  /-- Take some time. -/
  | sleep (ms : Nat)
  /-- Stop with an exit code. -/
  | exit (code : Int)
  /-- Fail as a script that could not be run. -/
  | fail (code : Option Int) (reason : Text)
  /-- Fail unexpectedly. -/
  | crash (reason : Text)
  /-- Cancel the run. -/
  | cancel
  /-- Send the engine a signal. -/
  | signal (name : Text)
  /-- Take an hour, and linger when interrupted. -/
  | stubborn (ms : Nat)
  /-- Take an hour, and go on when interrupted. -/
  | swallow
  /-- Do nothing. -/
  | idle
  deriving DecidableEq, Repr

/-- A text before and after its first space. -/
def splitAtSpace (cs : List CodePoint) : List CodePoint × List CodePoint :=
  (cs.takeWhile (· ≠ CodePoint.char ' '), (cs.dropWhile (· ≠ CodePoint.char ' ')).drop 1)

/-- A natural number, where the text is one. -/
def readCount? (cs : List CodePoint) : Option Nat := (readInt? cs).map Int.toNat

/-- The command of a verb and its argument. -/
def ScriptCommand.ofParts (verb : Text) (argument : List CodePoint) : ScriptCommand :=
  match verb.string? with
  | some "echo" => .echo (Text.ofList argument)
  | some "env" => .showVariable (Text.ofList argument)
  | some "repeat" =>
    let (count, text) := splitAtSpace argument
    ((readCount? count).map fun n => .repeated n (Text.ofList text)).getD .idle
  | some "out" => ((Text.bytesOfHex? argument).map .out).getD .idle
  | some "sleep" => ((readCount? argument).map .sleep).getD .idle
  | some "exit" => ((readInt? argument).map .exit).getD .idle
  | some "fail" =>
    let (code, reason) := splitAtSpace argument
    .fail (readInt? code) (Text.ofList reason)
  | some "crash" => .crash (Text.ofList argument)
  | some "cancel" => .cancel
  | some "signal" => .signal (Text.ofList argument)
  | some "stubborn" => ((readCount? argument).map .stubborn).getD .idle
  | some "swallow" => .swallow
  | _ => .idle

/-- The command of one piece of a script. -/
def readCommand (piece : List CodePoint) : ScriptCommand :=
  let (verb, argument) := splitAtSpace (Text.trim piece)
  .ofParts (Text.ofList verb) argument

/-- The commands of a script. -/
def readScript (script : Text) : List ScriptCommand :=
  (Text.splitAt ';' script.toList).map readCommand

end Conveyor
