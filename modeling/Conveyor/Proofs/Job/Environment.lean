import Conveyor.Job.Environment
import Conveyor.Proofs.Bindings
import Conveyor.Proofs.Job.Expansion

/-!
# Environments name by name

What a name has in the environment of an instance or of a step, from the parts of which the
environment is made.

- `StepSpec.sees`: what a step sees under a name, given what it inherits.
- `get?_stepEnv`: **what a step sees is what its environment has**.
- `JobTemplate.engineVariables`, `JobTemplate.get?_instanceEnv`: **what an instance has under a
  name**, from the first layer that binds it.
-/

namespace Conveyor

variable {env : Bindings} {name : Text}

/-! ## Steps -/

/-- The text of a name that is overridden, or not, given what is inherited. An additive override
is put in front of that, unless it is empty. -/
def overridden (additive : List Text) (name : Text) : Option Text → Option Text →
    Option Text
  | none, inherited => inherited
  | some text, none => some text
  | some text, some inherited =>
    if name ∈ additive ∧ inherited ≠ "" then some (text ++ pathListSeparator ++ inherited)
    else some text

/-- What a step sees under a name, given what is inherited under it. -/
def StepSpec.sees (s : StepSpec) (name : Text) (inherited : Option Text) : Option Text :=
  overridden s.additive name (s.overrides.get? name) inherited

theorem applyOverride_eq (additive : List Text) (env : Bindings) (name text : Text) :
    ∃ text', applyOverride additive env name text = env.put name text' := by
  unfold applyOverride
  split
  · split
    · exact ⟨_, rfl⟩
    · exact ⟨_, rfl⟩
  · exact ⟨_, rfl⟩

theorem get?_applyOverride_other {other : Text} (h : other ≠ name) (additive : List Text)
    (env : Bindings) (text : Text) :
    (applyOverride additive env name text).get? other = env.get? other := by
  obtain ⟨text', heq⟩ := applyOverride_eq additive env name text
  rw [heq, Bindings.get?_put, if_neg h]

theorem get?_applyOverride_self (additive : List Text) (env : Bindings) (name text : Text) :
    (applyOverride additive env name text).get? name =
      overridden additive name (some text) (env.get? name) := by
  unfold applyOverride
  cases env.get? name with
  | none => exact Bindings.get?_put_self name text env
  | some inherited =>
    by_cases h : name ∈ additive ∧ inherited ≠ ""
    · simp [overridden, h, Bindings.get?_put]
    · simp only [overridden, if_neg h, Bool.and_eq_true, List.contains_iff_mem,
        decide_eq_true_eq]
      exact Bindings.get?_put_self name text env

/-- **What a step sees under a name is what its environment has.** The overrides are applied one
after the other; no name is overridden twice, so none of them changes what another inherits. -/
theorem get?_stepEnv (env : Bindings) {s : StepSpec} (h : s.overrides.names.Nodup)
    (name : Text) :
    (stepEnv env s).get? name = s.sees name (env.get? name) := by
  unfold stepEnv StepSpec.sees
  generalize s.overrides = overrides at h
  induction overrides generalizing env with
  | nil => rfl
  | cons e rest ih =>
    obtain ⟨n, text⟩ := e
    have hnodup : n ∉ Bindings.names rest ∧ (Bindings.names rest).Nodup := List.nodup_cons.1 h
    rw [List.foldl_cons, ih _ hnodup.2]
    -- Either this is the one override of the name, or it leaves what the name had.
    by_cases hname : name = n
    · subst hname
      rw [Bindings.get?_of_not_mem hnodup.1, Bindings.get?, if_pos rfl]
      exact get?_applyOverride_self ..
    · rw [get?_applyOverride_other hname, Bindings.get?, if_neg (Ne.symm hname)]

theorem nodup_stepEnv (h : env.names.Nodup) (s : StepSpec) : (stepEnv env s).names.Nodup := by
  unfold stepEnv
  generalize s.overrides = overrides
  induction overrides generalizing env with
  | nil => exact h
  | cons e rest ih =>
    obtain ⟨text, heq⟩ := applyOverride_eq s.additive env e.1 e.2
    rw [List.foldl_cons, heq]
    exact ih (Bindings.nodup_put h e.1 text)

/-! ## Instances -/

namespace JobTemplate

/-- The variables that every instance has. -/
def engineVariables (t : JobTemplate) (variant : Option Text) : Bindings :=
  [(jobIdVariable, instanceId t.name variant), (jobNameVariable, t.name),
    (variantVariable, variant.getD "")]

variable {t : JobTemplate} {vars bindings : Bindings} {variant : Option Text}

theorem instanceEnv_eq (t : JobTemplate) (vars : Bindings) (variant : Option Text)
    (bindings : Bindings) :
    t.instanceEnv vars variant bindings =
      (((t.engineVariables variant).update vars).update t.jobVariables).update bindings := rfl

theorem nodup_engineVariables (t : JobTemplate) (variant : Option Text) :
    (t.engineVariables variant).names.Nodup := by
  show [jobIdVariable, jobNameVariable, variantVariable].Nodup
  decide

theorem nodup_instanceEnv (t : JobTemplate) (vars : Bindings) (variant : Option Text)
    (bindings : Bindings) : (t.instanceEnv vars variant bindings).names.Nodup := by
  rw [instanceEnv_eq]
  have hengine := nodup_engineVariables t variant
  exact Bindings.nodup_update (Bindings.nodup_update (Bindings.nodup_update hengine _) _) _

/-- **What an instance has under a name**: the bindings of the variant come first, then the
variables of the template, those of the run, and those that every instance has. -/
theorem get?_instanceEnv (hvars : vars.names.Nodup) (hjob : t.jobVariables.names.Nodup)
    (hbindings : bindings.names.Nodup) (name : Text) :
    (t.instanceEnv vars variant bindings).get? name =
      Bindings.firstBound [bindings, t.jobVariables, vars, t.engineVariables variant] name := by
  rw [instanceEnv_eq, Bindings.get?_update hbindings, Bindings.get?_update hjob,
    Bindings.get?_update hvars]
  simp

theorem instantiate_eq_ok {i : JobInstance} (h : t.instantiate vars variant bindings = .ok i) :
    resolveImage t.platform.containerImage bindings i.id = .ok i.platform.containerImage ∧
      i.env = t.instanceEnv vars variant bindings ∧ i.variant = variant ∧ i.steps = t.steps ∧
      i.id = instanceId t.name variant := by
  obtain ⟨image, himage, h⟩ := bind_eq_ok h
  cases h
  exact ⟨himage, rfl, rfl, rfl, rfl⟩

end JobTemplate

/-- Every instance is that of a variant. -/
theorem JobTemplate.exists_instantiate {t : JobTemplate} {vars : Bindings}
    {block : List JobInstance}
    (h : t.instances vars = .ok block) {i : JobInstance} (hi : i ∈ block) :
    ∃ v ∈ t.expandedVariants, t.instantiate vars v.1 v.2 = .ok i :=
  exists_mem_of_forall₂ (mapM_eq_ok h) hi

theorem exists_of_mem_expandAll {vars : Bindings} {jobs : List JobInstance}
    {templates : List JobTemplate}
    (h : expandAll templates vars = .ok jobs) {i : JobInstance} (hi : i ∈ jobs) :
    ∃ t ∈ templates, ∃ v ∈ t.expandedVariants, t.instantiate vars v.1 v.2 = .ok i := by
  obtain ⟨blocks, rfl, hblocks⟩ := expandAll_blocks h
  obtain ⟨block, hblock, hi⟩ := List.mem_flatten.1 hi
  obtain ⟨t, ht, hinstances⟩ := exists_mem_of_forall₂ hblocks hblock
  exact ⟨t, ht, JobTemplate.exists_instantiate hinstances hi⟩

end Conveyor
