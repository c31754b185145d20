import Conveyor.Bindings
import Conveyor.Command.Request
import Conveyor.Container.Units
import Conveyor.Output

/-!
# Settings

A setting comes from the options of the request, else from the environment, else from a default.
A number that is not positive is replaced by the default, with a warning.

- `Sources`: the options and the environment.
- `Warned`: a setting, with the warnings that finding it gave.
- `Sources.maxConcurrency`, `.outputLimit`, `.teardownGrace`, `.provisionerKind`: settings that
  can be invalid.
- `Sources.branch`, `.dbPath`, `.workspace`, …: settings that cannot.
- `Sources.runVariables`: the variables of the environment that jobs inherit.
-/

namespace Conveyor

/-- Where settings come from. -/
structure Sources where
  options : RunOptions
  environment : Bindings
  deriving DecidableEq, Repr

/-- A setting, with the warnings that finding it gave. -/
structure Warned (α : Type) where
  value : α
  warnings : List Text
  deriving DecidableEq, Repr

/-- A kind of number that a setting can be. -/
structure NumberKind (α : Type) where
  read? : List CodePoint → Option α
  isNonPositive : α → Bool
  text : α → Text

/-- Whole numbers. -/
def wholeNumber : NumberKind Int := ⟨readInt?, fun n => n ≤ 0, fun n => Int.repr n⟩

/-- Fractional numbers. -/
def fractionalNumber : NumberKind Binary64 :=
  ⟨readFloat?, Binary64.isNonPositive, fun x => x.text⟩

/-- A text that is there and not empty. -/
def nonempty? (text : Option Text) : Option Text := text.filter (· ≠ "")

namespace Sources

/-! ## Numbers -/

/-- A positive number, or the default. -/
def positive {α : Type} (s : Sources) (kind : NumberKind α) (given : Option α) (name : Text)
    (default : α) : Warned α :=
  match given with
  | some n =>
    if kind.isNonPositive n then
      ⟨default, ["Invalid value " ++ kind.text n ++ " for " ++ name ++ ", using default " ++
        kind.text default]⟩
    else ⟨n, []⟩
  | none =>
    match s.environment.get? name with
    | none => ⟨default, []⟩
    | some raw =>
      match kind.read? raw.toList with
      | none => invalid raw
      | some n => if kind.isNonPositive n then invalid (kind.text n) else ⟨n, []⟩
where
  /-- The default in place of something in the environment. -/
  invalid (shown : Text) : Warned α :=
    ⟨default, ["Invalid " ++ name ++ "=" ++ shown ++ ", using default " ++ kind.text default]⟩

/-- How many jobs run at the same time. -/
def maxConcurrency (s : Sources) : Warned Int :=
  s.positive wholeNumber s.options.maxConcurrency "PIPELINE_MAX_CONCURRENCY" 2

/-- How many characters of output are kept of a step. -/
def outputLimit (s : Sources) : Warned Int :=
  s.positive wholeNumber s.options.outputLimit "PIPELINE_OUTPUT_LIMIT" defaultOutputLimit

/-- How many seconds a job has to be torn down. -/
def teardownGrace (s : Sources) : Warned Binary64 :=
  s.positive fractionalNumber s.options.teardownGrace "PIPELINE_TEARDOWN_GRACE" (.ofInt 10)

/-! ## Texts -/

/-- The branch of the change. -/
def branch (s : Sources) : Option Text :=
  (nonempty? s.options.branch).orElse fun _ => s.environment.get? "PIPELINE_BRANCH"

/-- The word for where jobs run. -/
def provisionerWord (s : Sources) : Text :=
  match s.options.provisioner with
  | some kind => kind.word
  | none => (s.environment.get? "PIPELINE_PROVISIONER").getD ProvisionerKind.onHost.word

/-- Where jobs run. -/
def provisionerKind (s : Sources) : Warned ProvisionerKind :=
  match ProvisionerKind.ofWord? s.provisionerWord with
  | some kind => ⟨kind, []⟩
  | none => ⟨.onHost, ["Invalid PIPELINE_PROVISIONER=" ++ s.provisionerWord ++ ", using local"]⟩

/-- Where runs are recorded. -/
def dbPath (s : Sources) : Option Text :=
  (nonempty? s.options.dbPath).orElse fun _ => s.environment.get? "PIPELINE_DB_PATH"

/-- How the names of containers start. -/
def containerPrefix (s : Sources) : Text :=
  (s.options.containerPrefix.orElse fun _ =>
    s.environment.get? "PIPELINE_CONTAINER_PREFIX").getD defaultNamePrefix

/-- The image of jobs that name none. -/
def defaultImage (s : Sources) : Text :=
  (s.options.defaultImage.orElse fun _ =>
    s.environment.get? "PIPELINE_DEFAULT_IMAGE").getD defaultContainerImage

/-- The directory in which steps run. -/
def workspace (s : Sources) : Text :=
  ((nonempty? s.options.workspace).orElse fun _ =>
    nonempty? (s.environment.get? "PIPELINE_WORKSPACE")).getD currentDirectory

/-- The images in a list of images between commas; blanks around them do not count. -/
def imagesIn (raw : Text) : List Text :=
  ((Text.splitAt ',' raw.toList).map Text.trim).filterMap fun image =>
    if image.isEmpty then none else some (Text.ofList image)

/-- A list that is not empty. -/
def nonemptyList? (xs : List Text) : Option (List Text) :=
  if xs.isEmpty then none else some xs

/-- The pool images that the host stands in for, if they are restricted. -/
def poolImages (s : Sources) : Option (List Text) :=
  (s.options.poolImages.bind nonemptyList?).orElse fun _ =>
    (s.environment.get? "PIPELINE_POOL_IMAGES").bind fun raw => nonemptyList? (imagesIn raw)

/-! ## Variables -/

/-- The variables that jobs on the host inherit. -/
def inheritedVariables : List Text := ["PATH", "HOME", "LANG"]

/-- The variables of the environment that jobs inherit. Jobs in containers inherit none, so that
those of the image stay in effect. -/
def runVariables (s : Sources) (kind : ProvisionerKind) : Bindings :=
  match kind with
  | .inContainers => []
  | .onHost => inheritedVariables.filterMap fun name =>
    (s.environment.get? name).map fun text => (name, text)

end Sources

end Conveyor
