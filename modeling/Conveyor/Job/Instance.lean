import Conveyor.Document.Basic
import Conveyor.Job.Placeholder

/-!
# Job instances

A job template stands for one instance per variant of its matrix, or for a single one.

- `JobInstance`: everything a job needs to run.
- `resolveImage`: the container image of a variant; only the variant's own bindings count.
- `JobTemplate.instances`: the instances of one template, in the order of its variants.
- `expandAll`: the instances of all templates; their ids must differ.
-/

namespace Conveyor

/-- A job with its variant's bindings in place. -/
structure JobInstance where
  id : Text
  templateName : Text
  variant : Option Text
  timeoutSeconds : Binary64
  platform : Platform
  env : Bindings
  steps : List StepSpec
  deriving Repr

/-- Why templates cannot be expanded. -/
inductive ExpansionFault where
  | unboundPlaceholder (jobId image name : Text)
  | malformedPlaceholder (jobId image : Text) (line column : Nat)
  | duplicateInstance (id : Text)
  deriving DecidableEq, Repr

/-- Why templates cannot be expanded, in words. -/
def ExpansionFault.message : ExpansionFault → Text
  | .unboundPlaceholder jobId image name =>
    "Job " ++ jobId ++ ": container image " ++ Text.quoted image ++
      " references undefined matrix variable " ++ Text.quoted name
  | .malformedPlaceholder jobId image line column =>
    "Job " ++ jobId ++ ": malformed placeholder in container image " ++ Text.quoted image ++
      ": Invalid placeholder in string: line " ++ Nat.repr line ++ ", col " ++ Nat.repr column
  | .duplicateInstance id => "Duplicate job instance id: " ++ id

/-- The id of an instance: the name of its template, and of its variant if it has one. -/
def instanceId (name : Text) : Option Text → Text
  | none => name
  | some variant => name ++ "." ++ variant

/-- The container image of a variant. -/
def resolveImage (image : Option Text) (bindings : Bindings) (jobId : Text) :
    Except ExpansionFault (Option Text) :=
  match image with
  | none => .ok none
  | some image =>
    match Placeholder.substitute bindings image with
    | .ok resolved => .ok (some resolved)
    | .error (.unbound name) => .error (.unboundPlaceholder jobId image name)
    | .error (.stray line column) => .error (.malformedPlaceholder jobId image line column)

/-- The variable that holds the id of the job. -/
def jobIdVariable : Text := "PIPELINE_JOB_ID"

/-- The variable that holds the name of the job's template. -/
def jobNameVariable : Text := "PIPELINE_JOB_NAME"

/-- The variable that holds the name of the job's variant. -/
def variantVariable : Text := "PIPELINE_VARIANT"

namespace JobTemplate

/-- The environment of an instance. Later parts win over earlier ones. -/
def instanceEnv (t : JobTemplate) (runVariables : Bindings) (variant : Option Text)
    (bindings : Bindings) : Bindings :=
  let engine : Bindings :=
    [(jobIdVariable, instanceId t.name variant), (jobNameVariable, t.name),
     (variantVariable, variant.getD "")]
  ((engine.update runVariables).update t.jobVariables).update bindings

/-- The instance of one variant. -/
def instantiate (t : JobTemplate) (runVariables : Bindings) (variant : Option Text)
    (bindings : Bindings) : Except ExpansionFault JobInstance := do
  let id := instanceId t.name variant
  let image ← resolveImage t.platform.containerImage bindings id
  .ok
    { id := id
      templateName := t.name
      variant := variant
      timeoutSeconds := t.timeoutSeconds
      platform := { t.platform with containerImage := image }
      env := t.instanceEnv runVariables variant bindings
      steps := t.steps }

/-- The variants to expand: those of the matrix, or a single one without bindings. -/
def expandedVariants (t : JobTemplate) : List (Option Text × Bindings) :=
  if t.variants.isEmpty then [(none, [])] else t.variants.map fun v => (some v.1, v.2)

/-- The instances of a template. -/
def instances (t : JobTemplate) (runVariables : Bindings) :
    Except ExpansionFault (List JobInstance) :=
  t.expandedVariants.mapM fun v => t.instantiate runVariables v.1 v.2

end JobTemplate

/-- Append instances whose ids are new. -/
def appendDistinct : List JobInstance → List JobInstance →
    Except ExpansionFault (List JobInstance)
  | acc, [] => .ok acc
  | acc, i :: rest =>
    if acc.any fun j => j.id = i.id then .error (.duplicateInstance i.id)
    else appendDistinct (acc ++ [i]) rest

/-- The instances of all templates in order, on top of those expanded so far. -/
def expandFrom (runVariables : Bindings) :
    List JobInstance → List JobTemplate → Except ExpansionFault (List JobInstance)
  | acc, [] => .ok acc
  | acc, t :: rest => do
    let more ← t.instances runVariables
    expandFrom runVariables (← appendDistinct acc more) rest

/-- The instances of all templates in order. -/
def expandAll (templates : List JobTemplate) (runVariables : Bindings) :
    Except ExpansionFault (List JobInstance) :=
  expandFrom runVariables [] templates

end Conveyor
