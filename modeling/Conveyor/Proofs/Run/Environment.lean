import Conveyor.Proofs.Document.Variants
import Conveyor.Proofs.Run.Verdict
import Conveyor.Proofs.Schedule.Equipment
import Conveyor.Proofs.Schedule.Rehearsal
import Conveyor.Proofs.Schedule.Roster

/-!
# The environments of scripts

What a script sees under a name is determined by its step, the variant of its job, and the unit:
by nothing that other steps or other jobs do, and by nothing of when they do it.

- `PipelineDocument.Functional`: no mapping of a document binds a name twice; what was parsed is
  so.
- `PipelineDocument.inherited`: what the steps of a variant inherit under a name.
- `PipelineDocument.Determines`: the scripts that were started see what their steps make of that.
- `Engine.DuringRun`: the moments of a run; `Engine.schedule_runChange_eq_some`.
- `Engine.determined_environments`: **at every moment of a run, the environments of its scripts
  are determined**.
-/

namespace Conveyor

/-! ## Documents -/

/-- No mapping of a document binds a name twice. -/
structure PipelineDocument.Functional (d : PipelineDocument) : Prop where
  shared : d.sharedVariables.names.Nodup
  jobs : ∀ t ∈ d.jobs, t.jobVariables.names.Nodup
  variants : ∀ t ∈ d.jobs, ∀ v ∈ t.variants, v.2.names.Nodup
  steps : ∀ t ∈ d.jobs, ∀ s ∈ t.steps, s.overrides.names.Nodup

/-- **A document that was parsed is functional.** -/
theorem PipelineDocument.functional_of_ofKnotted {ks : Knots} {v : Value} {d : PipelineDocument}
    (h : ofKnotted ks v = .ok d) : d.Functional := by
  obtain ⟨hjobs, hshared⟩ := (ofKnotted_eq_ok h).2
  have hread : ∀ t ∈ d.jobs, ∃ x, t.Reads ks x := by
    intro t ht
    obtain ⟨x, -, hx⟩ := exists_mem_of_forall₂ hjobs ht
    exact ⟨x, hx⟩
  refine ⟨?_, fun t ht => ?_, fun t ht variant hvariant => ?_, fun t ht s hs => ?_⟩
  · rw [hshared]
    exact Value.nodup_bindings _
  · obtain ⟨x, hx⟩ := hread t ht
    rw [hx.jobVariables]
    exact Value.nodup_bindings _
  · obtain ⟨x, hx⟩ := hread t ht
    rw [hx.variants] at hvariant
    rcases Assoc.mem_of_mem_putAll hvariant with hnone | hmem
    · cases hnone
    · obtain ⟨e, -, rfl⟩ := List.mem_map.1 hmem
      exact Value.nodup_bindings _
  · obtain ⟨x, hx⟩ := hread t ht
    obtain ⟨y, -, hy⟩ := exists_mem_of_forall₂ hx.steps hs
    rw [show s.overrides = _ from hy]
    exact Value.nodup_bindings _

/-! ## What is inherited -/

namespace PipelineDocument

/-- What the steps of a variant inherit under a name: it is looked up in the bindings of the
variant, the variables of the template, those of the document, those of the run, those that every
instance has, and those of the unit. -/
def inherited (d : PipelineDocument) (vars : Bindings) (t : JobTemplate)
    (variant : Option Text × Bindings)
    (unitEnv : Bindings) (name : Text) : Option Text :=
  Bindings.firstBound
    [variant.2, t.jobVariables, d.sharedVariables, vars, t.engineVariables variant.1,
     unitEnv] name

/-- The scripts that were started are those of the first so many steps. Under each name, each of
them sees what its step makes of what is inherited under it. -/
def Determines (d : PipelineDocument) (vars : Bindings) (t : JobTemplate)
    (variant : Option Text × Bindings)
    (unitEnv : Bindings) (starts : List (Text × Bindings)) : Prop :=
  ∀ (n : Nat) (script : Text) (env : Bindings), starts[n]? = some (script, env) →
    ∃ s, t.steps[n]? = some s ∧ script = s.script ∧
      (∀ name, env.get? name = s.sees name (d.inherited vars t variant unitEnv name)) ∧
      (unitEnv.names.Nodup → env.names.Nodup)

variable {d : PipelineDocument} {vars unitEnv : Bindings} {t : JobTemplate}
  {variant : Option Text × Bindings} {i : JobInstance}

theorem nodup_expandedVariants (h : d.Functional) (ht : t ∈ d.jobs) (hvariant : variant ∈
    t.expandedVariants) :
    variant.2.names.Nodup := by
  unfold JobTemplate.expandedVariants at hvariant
  split at hvariant
  · rw [List.mem_singleton.1 hvariant]
    exact List.nodup_nil
  · obtain ⟨v, hv, rfl⟩ := List.mem_map.1 hvariant
    exact h.variants t ht v hv

/-- What an instance and its unit have under a name is what its steps inherit. -/
theorem get?_update_instantiate (h : d.Functional) (hvars : vars.names.Nodup) (ht : t ∈ d.jobs)
    (hvariant : variant ∈ t.expandedVariants)
    (hi : t.instantiate (vars.update d.sharedVariables) variant.1 variant.2 = .ok i)
    (name : Text) :
    (unitEnv.update i.env).get? name = d.inherited vars t variant unitEnv name := by
  have henv := (JobTemplate.instantiate_eq_ok hi).2.1
  rw [henv, Bindings.get?_update (JobTemplate.nodup_instanceEnv ..),
    JobTemplate.get?_instanceEnv (Bindings.nodup_update hvars _) (h.jobs t ht)
      (nodup_expandedVariants h ht hvariant)]
  simp only [inherited, Bindings.firstBound_cons, Bindings.firstBound_nil,
      Bindings.get?_update h.shared,
    Option.or_assoc, Option.or_none]

/-- **What was started in a unit is determined.** -/
theorem determines_of_started (h : d.Functional) (hvars : vars.names.Nodup) (ht : t ∈ d.jobs)
    (hvariant : variant ∈ t.expandedVariants)
    (hi : t.instantiate (vars.update d.sharedVariables) variant.1 variant.2 = .ok i)
    {ns : List Note}
    (hs : Started (unitEnv.update i.env) i.steps ns) :
    d.Determines vars t variant unitEnv (startsAmong ns) := by
  obtain ⟨-, henv, -, hsteps, -⟩ := JobTemplate.instantiate_eq_ok hi
  intro n script env hstart
  obtain ⟨later, hlater⟩ := hs
  -- What was started is a prefix of what the steps start, so it agrees with that wherever it is
  -- defined.
  have hplanned : (i.steps.map (StepSpec.start (unitEnv.update i.env)))[n]? =
      some (script, env) := by
    rw [← hlater, List.getElem?_append_left (List.getElem?_eq_some_iff.1 hstart).1]
    exact hstart
  rw [List.getElem?_map, hsteps, Option.map_eq_some_iff] at hplanned
  obtain ⟨s, hstep, heq⟩ := hplanned
  obtain ⟨rfl, rfl⟩ := Prod.mk.inj heq
  refine ⟨s, hstep, rfl, fun name => ?_, fun hunit =>
    nodup_stepEnv (Bindings.nodup_update hunit _) s⟩
  rw [get?_stepEnv _ (h.steps t ht s (List.mem_of_getElem? hstep)),
    get?_update_instantiate h hvars ht hvariant hi]

end PipelineDocument

/-! ## Runs -/

variable {σ : Type}

/-- The scripts that were started of a flight, with their environments. -/
def Floor.startsOf (m : Floor σ) (f : Nat) : List (Text × Bindings) :=
  startsAmong ((seenOf f m.seen).map Prod.snd)

variable {e : Engine} {document : PipelineDocument} {vars : Bindings} {change : Change}
  {sink : Option (Sink σ)} {fl : Floor (Notebook σ)} {jobs : List JobInstance}
  {s : ScheduleReport}

namespace Engine

/-- A moment of the run of a document: its change starts it, the sink has been told of the run,
and its jobs are being scheduled. -/
structure DuringRun (e : Engine) (document : PipelineDocument) (vars : Bindings)
    (sink : Option (Sink σ))
    (change : Change) (fl : Floor (Notebook σ)) (jobs : List JobInstance)
    (m : Floor (Notebook σ)) : Prop where
  trigger : document.trigger.triggers change.branch change.paths = true
  expand : expandAll document.jobs (vars.update document.sharedVariables) = .ok jobs
  moment : ∃ fl₁, e.Registers sink change jobs fl fl₁ ∧ e.Leads (e.staff jobs fl₁) m

/-- The schedule of a run of some jobs. -/
theorem schedule_runJobs_eq_some :
    (e.runJobs sink (chooseRunId change fl.around.names).1 change.branch jobs
      (fl.begin (chooseRunId change fl.around.names).2)).schedule = some s ↔
        ∃ fl₁ fl₂, e.Registers sink change jobs fl fl₁ ∧ e.reportSchedule jobs fl₁ =
        some (s, fl₂) := by
  constructor
  · intro h
    unfold runJobs at h
    split at h
    · cases h
    · rename_i m hregister
      split at h
      · cases h
      · rename_i s' fl₂ hrun
        rw [schedule_concludeRun] at h
        cases h
        exact ⟨_, fl₂, ⟨m, hregister, rfl⟩, hrun⟩
  · rintro ⟨fl₁, fl₂, hregisters, hrun⟩
    obtain ⟨m, hregister, rfl⟩ := hregisters.ready
    rw [runJobs, hregister]
    dsimp only
    rw [hrun]
    exact schedule_concludeRun ..

/-- The schedule of a run. -/
theorem schedule_runChange_eq_some :
    (e.runChange document vars sink change fl).schedule = some s ↔
      document.trigger.triggers change.branch change.paths = true ∧
        ∃ jobs fl₁ fl₂, expandAll document.jobs (vars.update document.sharedVariables) =
        .ok jobs ∧
          e.Registers sink change jobs fl fl₁ ∧ e.reportSchedule jobs fl₁ = some (s, fl₂) := by
  cases htrigger : document.trigger.triggers change.branch change.paths with
  | false => simp [runChange_skip htrigger, schedule_skipRun]
  | true =>
    cases hjobs : expandAll document.jobs (vars.update document.sharedVariables) with
    | error fault => simp [runChange_unexpanded htrigger hjobs, reportRun]
    | ok jobs => simp [runChange_jobs htrigger hjobs, schedule_runJobs_eq_some]

open Floor

/-- **At every moment of a run, the environments of its scripts are determined.** The flights of
the run are those of its first so many jobs, and each job is an instance of a variant of a
template. Of each, the scripts that were started are those of its first so many steps, and what
they see under a name is what their steps make of the first of these that binds it: the bindings
of the variant, the variables of the template, of the document and of the run, the engine's own,
and those of the unit that was acquired for the job. What is reported of a run is what was seen
at one of its moments. -/
theorem determined_environments {ks : Knots} {v : Value} (ho : e.Opens fl)
    (hdocument : PipelineDocument.ofKnotted ks v = .ok document) (hvars : vars.names.Nodup)
    (sink : Option (Sink σ))
    (change : Change) :
    (∀ jobs m, e.DuringRun document vars sink change fl jobs m →
      ∀ (k : Nat) (x : Flight), m.flights[fl.flights.length + k]? = some x →
      jobs[k]? = some x.job ∧
        ∃ t ∈ document.jobs, ∃ variant ∈ t.expandedVariants,
          t.instantiate (vars.update document.sharedVariables) variant.1 variant.2 = .ok x.job ∧
          (m.startsOf (fl.flights.length + k) = [] ∨
            ∃ u unitEnv, (e.provisioner.acquire x.job).Ends (.done u) ∧ u.env = .ok unitEnv ∧
              document.Determines vars t variant unitEnv (m.startsOf (fl.flights.length + k)))) ∧
    ∀ s, (e.runChange document vars sink change fl).schedule = some s →
      ∃ jobs m, e.DuringRun document vars sink change fl jobs m ∧ s = m.reportOf jobs := by
  refine ⟨fun jobs m hm k x hx => ?_, fun s hs => ?_⟩
  · -- The flight is that of a job, the job is that of a variant, and the lane of the flight
    -- tells what was started.
    obtain ⟨fl₁, hregisters, hleads⟩ := hm.moment
    obtain ⟨hopens, hidles⟩ := hregisters.opens ho
    have ho' := hopens.isOpen
    rw [← hidles.flights] at hx ⊢
    obtain ⟨taken, hdealt⟩ := ho'.dealt_leads hleads
    have hjob : jobs[k]? = some x.job := hdealt.flights k x hx
    obtain ⟨t, ht, variant, hvariant, hi⟩ :=
      exists_of_mem_expandAll hm.expand (List.mem_of_getElem? hjob)
    refine ⟨hjob, t, ht, variant, hvariant, hi, ?_⟩
    have hlane : m.lane? (fl₁.flights.length + k) = some (m.laneOf (fl₁.flights.length + k) x) :=
      lane?_eq_some.2 ⟨x, hx, rfl⟩
    have hequipped : x.job.EquippedBy e ((m.laneOf (fl₁.flights.length + k) x).notes) :=
      (ho'.equipped_leads hleads (Nat.le_add_right _ k) hlane).starts
    rcases hequipped with hnone | ⟨u, hu, hequips⟩
    · exact .inl hnone
    · cases henv : u.env with
      | error reason =>
        -- The variables of the unit cannot be read, so no step began.
        rw [ExecutionUnit.Equips, henv] at hequips
        exact .inl hequips
      | ok unitEnv =>
        rw [ExecutionUnit.Equips, henv] at hequips
        have hfunctional := PipelineDocument.functional_of_ofKnotted hdocument
        exact .inr ⟨u, unitEnv, hu, henv,
          PipelineDocument.determines_of_started hfunctional hvars ht hvariant hi hequips⟩
  · obtain ⟨htrigger, jobs, fl₁, fl₂, hexpand, hregisters, hrun⟩ :=
      schedule_runChange_eq_some.1 hs
    obtain ⟨m, hleads, rfl, -⟩ := (hregisters.opens ho).1.isOpen.exists_end hrun
    exact ⟨jobs, m, ⟨htrigger, hexpand, fl₁, hregisters, hleads⟩, rfl⟩

/-- A rehearsal of a decoded document with some run variables: the document, its jobs, and the
report. -/
def rehearsedDocument (v : Value) (vars : Bindings) :
    Option (PipelineDocument × List JobInstance × ScheduleReport × Floor (Notebook Unit)) := do
  let d ← (PipelineDocument.ofKnotted [] v).toOption
  let jobs ← (expandAll d.jobs (vars.update d.sharedVariables)).toOption
  let r ← (rehearsal .smooth 1).reportIn 80 jobs .registered
  some (d, jobs, r)

theorem rehearsedDocument_eq_some {v : Value}
    {r : PipelineDocument × List JobInstance × ScheduleReport × Floor (Notebook Unit)}
    (h : rehearsedDocument v vars = some r) :
    PipelineDocument.ofKnotted [] v = .ok r.1 ∧
      expandAll r.1.jobs (vars.update r.1.sharedVariables) = .ok r.2.1 ∧
      (rehearsal .smooth 1).reportIn 80 r.2.1 .registered = some r.2.2 := by
  simp only [rehearsedDocument, Option.bind_eq_bind, Option.bind_eq_some_iff] at h
  obtain ⟨d, hd, jobs, hjobs, report, hreport, heq⟩ := h
  cases heq
  exact ⟨eq_ok_of_toOption hd, eq_ok_of_toOption hjobs, hreport⟩

/-- The variables of a run. -/
def searchPath : Bindings := [("PATH", "/bin"), ("ARCH", "any")]

/-- The second variant of a job sees its own binding, and what its step puts in front of a
variable of the run. -/
theorem determined_environments_variant :
    ∃ document jobs m, (rehearsal .smooth 1).DuringRun document searchPath none mainChange .plain
    jobs m ∧
      ((m.startsOf 1).map fun x => (x.1, x.2.get? "PATH", x.2.get? "ARCH")) =
        ([("make", some "/opt:/bin", some "arm")] : List (Text × Option Text × Option Text)) ∧
      ∃ t ∈ document.jobs, ∃ variant ∈ t.expandedVariants, ∃ unitEnv,
        document.Determines searchPath t variant unitEnv (m.startsOf 1) := by
  have hrun : ∃ r, rehearsedDocument (PipelineDocument.decodedBuild (.int 5)
      (PipelineDocument.architectures (.text "a") (.text "b"))) searchPath = some r ∧
      decide (r.1.trigger.triggers "main" [] = true ∧ r.2.1.isEmpty = false ∧
          r.2.2.1.ids.length = 2 ∧
        ((startsAmong ((r.2.2.1.seenOf 1).map Prod.snd)).map fun x =>
            (x.1, x.2.get? "PATH", x.2.get? "ARCH")) =
          ([("make", some "/opt:/bin", some "arm")] :
            List (Text × Option Text × Option Text))) = true :=
    (Option.any_eq_true _ _).1 (by decide +kernel)
  obtain ⟨⟨document, jobs, s, fl'⟩, hrehearsed, hseen⟩ := hrun
  obtain ⟨hdocument, hexpand, hreport⟩ := rehearsedDocument_eq_some hrehearsed
  obtain ⟨htrigger, hjobs, hids, hstarts⟩ := of_decide_eq_true hseen
  have hschedule : ((rehearsal .smooth 1).runChange document searchPath none mainChange
      .plain).schedule =
      some s :=
    schedule_runChange_eq_some.2 ⟨htrigger, jobs, _, fl', hexpand, registers_none ..,
      reportSchedule_of_reportIn hjobs hreport⟩
  have hopens : (rehearsal .smooth 1).Opens Floor.plain := .start 0 0 _
  have hvars : searchPath.names.Nodup := by decide
  have hdetermined := determined_environments hopens hdocument hvars none mainChange
  obtain ⟨jobs', m, hduring, rfl⟩ := hdetermined.2 s hschedule
  obtain ⟨x, hx⟩ : ∃ x, m.flights[1]? = some x := by
    rw [show (m.reportOf jobs').ids = m.flights.map fun x => x.job.id from rfl,
      List.length_map] at hids
    exact ⟨_, List.getElem?_eq_getElem (by omega)⟩
  have hsame : startsAmong (((m.reportOf jobs').seenOf 1).map Prod.snd) = m.startsOf 1 := by
    rw [seenOf_reportOf]
    rfl
  rw [hsame] at hstarts
  refine ⟨document, jobs', m, hduring, hstarts, ?_⟩
  obtain ⟨-, t, ht, variant, hvariant, -, hnone | ⟨u, unitEnv, -, -, hdetermines⟩⟩ :=
    hdetermined.1 jobs' m hduring 1 x hx
  · rw [show m.startsOf 1 = [] from hnone] at hstarts
    cases hstarts
  · exact ⟨t, ht, variant, hvariant, unitEnv, hdetermines⟩

end Engine

end Conveyor
