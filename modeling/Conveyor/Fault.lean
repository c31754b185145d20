import Conveyor.Text.Quoted
import Conveyor.Text.Utf8

/-!
# Faults

Why an activity of the engine fails.

- `Fault`: the causes.
- `Fault.message`: a cause in words.
- `Fault.ofStep?`: faults that a script's executor reports for the step alone, with the exit code
  they stand for.
-/

namespace Conveyor

/-- Why an activity fails. -/
inductive Fault where
  /-- The platform cannot be provided, for the reason given. -/
  | refused (reason : Text)
  /-- The host runs no containers. -/
  | containerUnsupported (image : Text)
  /-- The host does not stand in for the pool image. -/
  | poolUnavailable (image host : Text)
  /-- There is no such directory to run in. -/
  | workspaceMissing (path : Text)
  /-- The path of the directory to run in is longer than the file system allows. -/
  | pathTooLong (path : Text)
  /-- A container could not be brought up. -/
  | unprovisionable (image jobId reason : Text)
  /-- A program could not be launched. -/
  | notLaunched (program reason : Text)
  /-- A script was given a unit without container. -/
  | noContainer (jobId : Text)
  /-- A script could not be run to completion. -/
  | gaveUp (reason : Text) (exitCode : Option Int)
  /-- Something broke unexpectedly. -/
  | crashed (reason : Text)
  /-- A command on a container exited with an error. -/
  | commandFailed (action complaint : Text)
  /-- The run was canceled between two steps. -/
  | canceledBefore (jobId step : Text)
  /-- The operating system refused to spawn a process. -/
  | spawnRefused (reason : Text)
  /-- A command complained in bytes that are not UTF-8. -/
  | undecodable (part : Text.Utf8.Fault)
  /-- A pool image that cannot be looked up among the images of the host. -/
  | poolImageKind (type : Text)
  deriving DecidableEq, Repr

/-- What the file system says of a path that is too long. -/
def tooLongPathMessage (path : Text) : Text :=
  "[Errno 36] File name too long: " ++ Text.quoted path

namespace Fault

/-- A cause in words. -/
def message : Fault → Text
  | refused reason => reason
  | containerUnsupported image => "Local host cannot run container image " ++ image
  | poolUnavailable image host => "Pool image " ++ image ++ " is not available on " ++ host
  | workspaceMissing path => "Workspace not found: " ++ path
  | pathTooLong path => tooLongPathMessage path
  | unprovisionable image jobId reason =>
    "Unable to provision " ++ image ++ " for job " ++ jobId ++ ": " ++ reason
  | notLaunched program reason => "Failed to launch " ++ program ++ ": " ++ reason
  | noContainer jobId => "Job " ++ jobId ++ " has no container"
  | gaveUp reason _ => reason
  | crashed reason => reason
  | commandFailed action complaint => "Failed to " ++ action ++ " container: " ++ complaint
  | canceledBefore jobId step =>
    "Job " ++ jobId ++ " canceled before step \x27" ++ step ++ "\x27"
  | spawnRefused reason => reason
  | undecodable part => part.message
  | poolImageKind type => "unhashable type: \x27" ++ type ++ "\x27"

/-- The exit code of a program that could not be launched. -/
def launchExitCode : Int := 127

/-- For a fault that concerns only the step whose script it is: the exit code it stands for. -/
def ofStep? : Fault → Option (Option Int)
  | notLaunched _ _ => some (some launchExitCode)
  | noContainer _ => some none
  | gaveUp _ exitCode => some exitCode
  | _ => none

/-- Does the fault say that the run was canceled? -/
def isCancellation : Fault → Bool
  | canceledBefore _ _ => true
  | _ => false

end Fault

end Conveyor
