import Conveyor.Document.Basic

/-!
# The environment of a step

A step sees the environment of its job with its own overrides on top. An additive override is put
in front of what the job has under that name.
-/

namespace Conveyor

/-- What stands between the parts of a list of paths. -/
def pathListSeparator : Text := ":"

/-- Apply one override. -/
def applyOverride (additive : List Text) (env : Bindings) (name text : Text) : Bindings :=
  match env.get? name with
  | some inherited =>
    if additive.contains name && inherited ≠ "" then
      env.put name (text ++ pathListSeparator ++ inherited)
    else env.put name text
  | none => env.put name text

/-- The environment of a step. -/
def stepEnv (jobEnv : Bindings) (step : StepSpec) : Bindings :=
  step.overrides.foldl (fun env e => applyOverride step.additive env e.1 e.2) jobEnv

end Conveyor
