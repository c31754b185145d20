import Conveyor.Bindings
import Conveyor.Trigger.Rule
import Conveyor.Value

/-!
# Pipeline documents

A document says when a change starts a run, and which jobs the run consists of.

- `StepSpec`: one script with its environment.
- `Platform`: where a job runs.
- `JobTemplate`: a job before its matrix is expanded.
- `PipelineDocument`: the trigger rule, the variables of all jobs, and the jobs.
-/

namespace Conveyor

/-- One script step of a job. -/
structure StepSpec where
  displayName : Text
  script : Text
  /-- Variables that the step sets for itself. -/
  overrides : Bindings
  /-- The overrides that are put in front of the inherited text instead of replacing it. -/
  additive : List Text
  deriving DecidableEq, Repr

/-- Where a job runs: on a machine of a pool, possibly inside a container. -/
structure Platform where
  poolImage : Value
  /-- The container image; in a template it may hold placeholders. -/
  containerImage : Option Text
  deriving Repr

/-- A job before its matrix is expanded. -/
structure JobTemplate where
  name : Text
  platform : Platform
  steps : List StepSpec
  timeoutSeconds : Binary64
  jobVariables : Bindings
  /-- The variants by name, each with its own bindings; without any, there is one variant. -/
  variants : List (Text × Bindings)
  deriving Repr

/-- A trigger rule and the jobs it guards. -/
structure PipelineDocument where
  trigger : TriggerRule
  jobs : List JobTemplate
  sharedVariables : Bindings
  deriving Repr

/-- What is wrong with a decoded document. `place` names the part of the document. -/
inductive DocumentFault where
  | notAMapping (place type : Text)
  | notTexts (place : Text)
  | notAScalar (place key : Text)
  | missingText (place key : Text)
  | noBranches
  | unknownPolicy (shown : Text)
  | blankScript (place : Text)
  | badDisplayName (place : Text)
  | strayAdditive (place : Text) (names : List Text)
  | badTimeout (place : Text)
  | badContainerImage (place : Text)
  | noSteps (place : Text)
  | noJobs
  | duplicateJobs (names : List Text)
  /-- An integer has too many digits to be written out. -/
  | unwritableInteger
  /-- The time limit is an integer past the greatest number. -/
  | timeoutOverflow
  /-- A value that the message is to show is nested too deep. -/
  | tooDeep
  deriving DecidableEq, Repr

/-- A list of texts as messages show it. -/
def shownTexts (xs : List Text) : Text := (Value.list (xs.map .text)).shown

/-- What is wrong with a document, in words. -/
def DocumentFault.message : DocumentFault → Text
  | .notAMapping place type => place ++ " must be a mapping, got " ++ type
  | .notTexts place => place ++ " must be a list of strings"
  | .notAScalar place key => place ++ "." ++ key ++ " must be a scalar value"
  | .missingText place key => place ++ "." ++ key ++ " is required and must be a string"
  | .noBranches => "trigger.branches must name at least one branch"
  | .unknownPolicy shown =>
    "trigger.path_policy must be one of shallow, recursive, got " ++ shown
  | .blankScript place => place ++ ".script must not be blank"
  | .badDisplayName place => place ++ ".display_name must be a non-empty string"
  | .strayAdditive place names =>
    place ++ ".additive names variables without an override: " ++ shownTexts names
  | .badTimeout place => place ++ ".timeout_minutes must be a positive number"
  | .badContainerImage place => place ++ ".container_image must be a string"
  | .noSteps place => place ++ ".steps must be a non-empty list"
  | .noJobs => "document.jobs must be a non-empty list"
  | .duplicateJobs names => "Duplicate job names: " ++ shownTexts names
  | .unwritableInteger =>
    "Exceeds the limit (4300 digits) for integer string conversion; " ++
      "use sys.set_int_max_str_digits() to increase the limit"
  | .timeoutOverflow => "int too large to convert to float"
  | .tooDeep => "maximum recursion depth exceeded"

end Conveyor
