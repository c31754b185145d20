import Conveyor.Proofs.Command.Loading
import Conveyor.Proofs.Document.Limits
import Conveyor.Proofs.Run.Answers

/-!
# The limits of a run

The numbers that bound a run come from two places. The time limits of the jobs are read from the
document, where a number that is not positive is refused. How many jobs run at once, how much
output is kept and how long a job may take to be torn down are settings, where such a number is
replaced by the default. Whatever reaches the scheduler is positive, but for the undefined
number, which both places let pass.

- `Sources.asked`, `Warned.Finds`, `Sources.finds_positive`: **what becomes of a number that is
  asked for**.
- `Sources.engine`, `Engine.Limited`: the engine that the settings make.
- `Workplace.Withheld`, `CommandEnd.Schedules`: a command schedules nothing, or some jobs with an
  engine.
- `Workplace.withheld_or_schedules`: **it does one of the two**.
- `Schema.SettlesLimits`: the limits of a document, whether it is accepted or not.
- `Workplace.limits_handed_over`: **all numbers that a command hands to the scheduler**.
-/

namespace Conveyor

/-! ## Settings -/

/-- The number that is asked for, by an option or else in the environment: it may not be
mentioned, and the text in the environment may be no number. -/
def Sources.asked {α : Type} (s : Sources) (kind : NumberKind α) (given : Option α)
    (name : Text) :
    Option (Option α) :=
  match given with
  | some n => some (some n)
  | none => (s.environment.get? name).map fun raw => kind.read? raw.toList

/-- What is found for a number that is asked for, if those that pass are those of which `P`
holds. -/
inductive Warned.Finds {α : Type} (kind : NumberKind α) (asked : Option (Option α))
    (P : α → Prop)
    (default : α) : Warned α → Prop
  | unasked (h : asked = none) : Finds kind asked P default ⟨default, []⟩
  | taken {n : α} (h : asked = some (some n)) (hn : P n) : Finds kind asked P default ⟨n, []⟩
  /-- The default, with a warning that names it. -/
  | replaced {number : Option α} (h : asked = some number) (hn : ∀ n ∈ number, ¬ P n)
    (complaint : Text) :
      Finds kind asked P default
      ⟨default, [complaint ++ ", using default " ++ kind.text default]⟩

/-- **A number is taken if it passes, and replaced by the default otherwise.** -/
theorem Sources.finds_positive {α : Type} {kind : NumberKind α} {P : α → Prop}
    (hP : ∀ n, kind.isNonPositive n = false ↔ P n) (s : Sources) (given : Option α)
    (name : Text)
    (default : α) :
    (s.positive kind given name default).Finds kind (s.asked kind given name) P default := by
  have hbad {n : α} (hn : kind.isNonPositive n = true) : ∀ m ∈ some n, ¬ P m := by
    rintro m ⟨⟩
    rw [← hP, hn]
    simp
  have hgood {n : α} (hn : ¬ kind.isNonPositive n = true) : P n :=
    (hP n).1 (Bool.eq_false_iff.2 hn)
  unfold positive
  split
  · -- An option counts even if it is replaced: the environment is then not asked.
    split
    · rename_i hn
      exact .replaced rfl (hbad hn) _
    · rename_i hn
      exact .taken rfl (hgood hn)
  · split
    · rename_i hnone
      refine .unasked ?_
      rw [asked, hnone]
      rfl
    · rename_i raw hraw
      have hasked : s.asked kind none name = some (kind.read? raw.toList) := by
        rw [asked, hraw]
        rfl
      split
      · rename_i hread
        rw [hread] at hasked
        exact .replaced hasked (fun m hm => absurd hm (Option.not_mem_none m)) _
      · rename_i n hread
        rw [hread] at hasked
        split
        · rename_i hn
          exact .replaced hasked (hbad hn) _
        · rename_i hn
          exact .taken hasked (hgood hn)

variable {α : Type} {kind : NumberKind α} {asked : Option (Option α)} {P : α → Prop}
    {default : α}
  {found : Warned α}

/-- What is found passes, if the default does. -/
theorem Warned.Finds.passes (h : found.Finds kind asked P default) (hdefault : P default) :
    P found.value := by
  cases h with
  | unasked _ => exact hdefault
  | taken _ hn => exact hn
  | replaced _ _ _ => exact hdefault

/-- What is found and is not the default was asked for. -/
theorem Warned.Finds.asked_of_ne (h : found.Finds kind asked P default) (hdefault : found.value ≠
    default) :
    asked = some (some found.value) := by
  cases h with
  | unasked _ => exact absurd rfl hdefault
  | taken h _ => exact h
  | replaced _ _ _ => exact absurd rfl hdefault

namespace Sources

/-- How many jobs are asked to run at the same time. -/
def askedConcurrency (s : Sources) : Option (Option Int) :=
  s.asked wholeNumber s.options.maxConcurrency "PIPELINE_MAX_CONCURRENCY"

/-- How many characters of output are asked to be kept. -/
def askedOutputLimit (s : Sources) : Option (Option Int) :=
  s.asked wholeNumber s.options.outputLimit "PIPELINE_OUTPUT_LIMIT"

/-- How many seconds are asked for to tear a job down. -/
def askedGrace (s : Sources) : Option (Option Binary64) :=
  s.asked fractionalNumber s.options.teardownGrace "PIPELINE_TEARDOWN_GRACE"

/-- The settings that bound a run. A whole number passes if it is above zero, a fractional one
also if it is undefined. -/
structure FindsLimits (s : Sources) : Prop where
  maxConcurrency : s.maxConcurrency.Finds wholeNumber s.askedConcurrency (0 < ·) 2
  outputLimit : s.outputLimit.Finds wholeNumber s.askedOutputLimit (0 < ·) 65536
  teardownGrace :
    s.teardownGrace.Finds fractionalNumber s.askedGrace (fun x => x.IsPositive ∨ x = .nan)
      (.ofInt 10)

theorem findsLimits (s : Sources) : s.FindsLimits := by
  have hwhole (n : Int) : wholeNumber.isNonPositive n = false ↔ 0 < n := by
    simp [wholeNumber]
  have hfractional (x : Binary64) : fractionalNumber.isNonPositive x = false ↔ x.IsPositive ∨
      x = .nan :=
    Binary64.isNonPositive_eq_false_iff
  exact ⟨finds_positive hwhole s _ _ _, finds_positive hwhole s _ _ _,
    finds_positive hfractional s _ _ _⟩

/-- The engine that the settings make. -/
def engine (s : Sources) (b : Backend) (epoch : Nat) : Engine :=
  { provisioner := b.provisioner
    executor := b.executor
    maxConcurrency := s.maxConcurrency.value
    outputLimit := s.outputLimit.value
    graceSeconds := s.teardownGrace.value
    epoch := epoch }

end Sources

/-- The limits of an engine are positive, so it can be started. The grace period is undefined
only if that is what is asked for. -/
structure Engine.Limited (e : Engine) (askedGrace : Option (Option Binary64)) : Prop where
  maxConcurrency : 0 < e.maxConcurrency
  outputLimit : 0 < e.outputLimit
  grace : e.graceSeconds.IsPositive ∨ askedGrace = some (some .nan) ∧ e.graceSeconds = .nan
  startable : e.concurrencyFault? = none

/-- **The engine that the settings make has positive limits.** -/
theorem Sources.limited_engine (s : Sources) (b : Backend) (epoch : Nat) :
    (s.engine b epoch).Limited s.askedGrace := by
  have hfinds := s.findsLimits
  have hconcurrency : 0 < (s.engine b epoch).maxConcurrency :=
    hfinds.maxConcurrency.passes (by decide)
  refine ⟨hconcurrency, hfinds.outputLimit.passes (by decide), ?_, ?_⟩
  · obtain hpos | hnan := hfinds.teardownGrace.passes (by decide)
    · exact .inl hpos
    · -- The default is defined, so the undefined number is not that.
      have hne : s.teardownGrace.value ≠ .ofInt 10 := by
        rw [hnan]
        decide
      have hasked := hfinds.teardownGrace.asked_of_ne hne
      rw [hnan] at hasked
      exact .inr ⟨hasked, hnan⟩
  · unfold Engine.concurrencyFault?
    rw [if_neg (by omega)]

/-! ## Commands -/

/-- The settings of a request. -/
def Circumstances.sources (c : Circumstances) (request : RunRequest) : Sources :=
  ⟨request.options, c.environment⟩

/-- The variables that all jobs of a document have in a run. -/
def Sources.variablesFor (s : Sources) (d : PipelineDocument) : Bindings :=
  (s.runVariables s.provisionerKind.value).update d.sharedVariables

/-- Why a command schedules nothing. -/
inductive Workplace.Withheld (w : Workplace) (c : Circumstances) (request : RunRequest) : Prop
  | noBranch (h : nonempty? (c.sources request).branch = none)
  | unloaded {fault : CommandFault} (h : w.loadDocument request.document = .error fault)
  | noWorkspace (h : ((c.sources request).backend? c.host).value = none)
  | noHistory {path : Text} {fault : OpenFault} (hpath : nonempty? (c.sources request).dbPath =
      some path)
      (h : w.disk.openStore path = .error fault)
  | skipped {d : PipelineDocument} {branch : Text} (hload : w.loadDocument request.document =
      .ok d)
      (hbranch : nonempty? (c.sources request).branch = some branch)
      (h : d.trigger.triggers branch request.options.changedPaths = false)
  | unexpanded {d : PipelineDocument} {fault : ExpansionFault}
    (hload : w.loadDocument request.document = .ok d)
      (h : expandAll d.jobs ((c.sources request).variablesFor d) = .error fault)

namespace Workplace

/-- Does nothing stand in the way of the jobs? This can be computed. -/
def starts (w : Workplace) (c : Circumstances) (request : RunRequest) : Bool :=
  match nonempty? (c.sources request).branch, w.loadDocument request.document with
  | some branch, .ok d =>
    d.trigger.triggers branch request.options.changedPaths &&
      (expandAll d.jobs ((c.sources request).variablesFor d)).toBool &&
      ((c.sources request).backend? c.host).value.isSome &&
      (nonempty? (c.sources request).dbPath).all fun path => (w.disk.openStore path).toBool
  | _, _ => false

/-- Something stands in the way of the jobs for one of the reasons. -/
theorem withheld_iff {w : Workplace} {c : Circumstances} {request : RunRequest} :
    w.Withheld c request ↔ w.starts c request = false := by
  constructor
  · intro h
    cases h with
    | noBranch h => simp [starts, h]
    | unloaded h => simp [starts, h]
    | noWorkspace h =>
      unfold starts
      split <;> simp [h]
    | noHistory hpath h =>
      unfold starts
      split <;> simp [hpath, h, Except.toBool]
    | skipped hload hbranch h => simp [starts, hload, hbranch, h]
    | unexpanded hload h =>
      unfold starts
      rw [hload]
      split <;> simp_all [Except.toBool]
  · intro h
    unfold starts at h
    split at h
    · -- There is a branch and a document, so one of the four conditions fails.
      rename_i branch d hbranch hload
      simp only [Bool.and_eq_false_iff] at h
      obtain ((htrigger | hexpand) | hbackend) | hhistory := h
      · exact .skipped hload hbranch htrigger
      · cases hjobs : expandAll d.jobs ((c.sources request).variablesFor d) with
        | error fault => exact .unexpanded hload hjobs
        | ok jobs =>
          rw [hjobs] at hexpand
          cases hexpand
      · exact .noWorkspace (Option.isNone_iff_eq_none.1 (Option.isSome_eq_false_iff.1 hbackend))
      · cases hpath : nonempty? (c.sources request).dbPath with
        | none =>
          rw [hpath] at hhistory
          cases hhistory
        | some path =>
          rw [hpath, Option.all_some] at hhistory
          cases hstore : w.disk.openStore path with
          | error fault => exact .noHistory hpath hstore
          | ok store =>
            rw [hstore] at hhistory
            cases hhistory
    · rename_i hneither
      cases hbranch : nonempty? (c.sources request).branch with
      | none => exact .noBranch hbranch
      | some branch =>
        cases hload : w.loadDocument request.document with
        | error fault => exact .unloaded hload
        | ok d => exact absurd hload (hneither branch d hbranch)

instance (w : Workplace) (c : Circumstances) (request : RunRequest) :
    Decidable (w.Withheld c request) :=
  decidable_of_iff _ withheld_iff.symm

end Workplace

/-- The command hands some jobs to the scheduler of an engine: it ends as the run of these jobs
does. -/
def CommandEnd.Schedules (r : CommandEnd) (e : Engine) (jobs : List JobInstance) : Prop :=
  ∃ (σ : Type) (sink : Option (Sink σ)) (runId branch : Text) (fl : Floor (Notebook σ))
      (log : List LogEntry),
    r = Workplace.endOfRun log (e.runJobs sink runId branch jobs fl)

/-- A run of a document schedules nothing, or the instances of its jobs. -/
theorem Engine.runChange_cases {σ : Type} (e : Engine) (d : PipelineDocument) (vars : Bindings)
    (sink : Option (Sink σ)) (change : Change) (fl : Floor (Notebook σ)) :
    (d.trigger.triggers change.branch change.paths = false ∨
        ∃ fault, expandAll d.jobs (vars.update d.sharedVariables) = .error fault) ∧
      (e.runChange d vars sink change fl).schedule = none ∨
    ∃ jobs runId fl', expandAll d.jobs (vars.update d.sharedVariables) = .ok jobs ∧
      e.runChange d vars sink change fl = e.runJobs sink runId change.branch jobs fl' := by
  cases htrigger : d.trigger.triggers change.branch change.paths with
  | false =>
    refine .inl ⟨.inl rfl, ?_⟩
    rw [runChange_skip htrigger]
    exact schedule_skipRun ..
  | true =>
    cases hjobs : expandAll d.jobs (vars.update d.sharedVariables) with
    | error fault =>
      rw [runChange_unexpanded htrigger hjobs]
      exact .inl ⟨.inr ⟨fault, rfl⟩, rfl⟩
    | ok jobs => exact .inr ⟨jobs, _, _, rfl, runChange_jobs htrigger hjobs⟩

namespace Workplace

/-- How a command ends that ran a document: nothing was scheduled, or the instances of its
jobs. -/
theorem endOfRun_cases {σ : Type} (e : Engine) (d : PipelineDocument) (vars : Bindings)
    (sink : Option (Sink σ))
    (change : Change) (fl : Floor (Notebook σ)) (log : List LogEntry) :
    (d.trigger.triggers change.branch change.paths = false ∨
        ∃ fault, expandAll d.jobs (vars.update d.sharedVariables) = .error fault) ∧
      (endOfRun log (e.runChange d vars sink change fl)).notes = [] ∨
    ∃ jobs, expandAll d.jobs (vars.update d.sharedVariables) = .ok jobs ∧
      (endOfRun log (e.runChange d vars sink change fl)).Schedules e jobs := by
  obtain ⟨hnone, hschedule⟩ | ⟨jobs, runId, fl', hjobs, hrun⟩ :=
    e.runChange_cases d vars sink change fl
  · refine .inl ⟨hnone, ?_⟩
    rw [endOfRun, hschedule]
    rfl
  · rw [hrun]
    exact .inr ⟨jobs, hjobs, σ, sink, runId, change.branch, fl', log, rfl⟩

variable (w : Workplace) (c : Circumstances)

/-- How a command goes on that has a branch, a document and a backend. -/
theorem runOn_cases (s : Sources) (d : PipelineDocument) (branch : Text) (b : Backend)
    (warned : List Text) :
    ((∃ path fault, nonempty? s.dbPath = some path ∧ w.disk.openStore path = .error fault) ∨
        d.trigger.triggers branch s.options.changedPaths = false ∨
        ∃ fault, expandAll d.jobs (s.variablesFor d) = .error fault) ∧
      (w.runOn c s d branch b warned).1.notes = [] ∨
    ∃ jobs, expandAll d.jobs (s.variablesFor d) = .ok jobs ∧
      (w.runOn c s d branch b warned).1.Schedules (s.engine b c.epoch) jobs := by
  unfold runOn
  dsimp only
  -- With a history and without one, the run is the same but for its sink.
  cases hpath : nonempty? s.dbPath with
  | none =>
    obtain ⟨hnone, hnotes⟩ | hschedules :=
      endOfRun_cases (s.engine b c.epoch) d (s.runVariables s.provisionerKind.value)
          (none : Option (Sink Unit))
        ⟨branch, s.options.changedPaths, none⟩ (.start w.names w.processes ⟨(), []⟩) _
    · exact .inl ⟨.inr hnone, hnotes⟩
    · exact .inr hschedules
  | some path =>
    dsimp only
    cases hstore : w.disk.openStore path with
    | error fault => exact .inl ⟨.inl ⟨path, fault, rfl, hstore⟩, rfl⟩
    | ok store =>
      obtain ⟨hnone, hnotes⟩ | hschedules :=
        endOfRun_cases (s.engine b c.epoch) d (s.runVariables s.provisionerKind.value)
            (some Store.sink)
          ⟨branch, s.options.changedPaths, none⟩ (.start w.names w.processes ⟨store, []⟩) _
      · exact .inl ⟨.inr hnone, hnotes⟩
      · exact .inr hschedules

/-- **A command schedules nothing, and notes nothing, or it schedules the instances of the
document** with the engine that its settings make. -/
theorem withheld_or_schedules (request : RunRequest) :
    w.Withheld c request ∧ (w.runPipeline c request).1.notes = [] ∨
      ∃ d b jobs, w.loadDocument request.document = .ok d ∧
        expandAll d.jobs ((c.sources request).variablesFor d) = .ok jobs ∧
        (w.runPipeline c request).1.Schedules ((c.sources request).engine b c.epoch) jobs := by
  unfold runPipeline
  dsimp only
  rw [← Circumstances.sources]
  cases hbranch : nonempty? (c.sources request).branch with
  | none => exact .inl ⟨.noBranch hbranch, rfl⟩
  | some branch =>
    dsimp only
    cases hload : w.loadDocument request.document with
    | error fault => exact .inl ⟨.unloaded hload, rfl⟩
    | ok d =>
      unfold runDocument
      dsimp only
      cases hbackend : ((c.sources request).backend? c.host).value with
      | none => exact .inl ⟨.noWorkspace hbackend, rfl⟩
      | some b =>
        obtain ⟨hnone, hnotes⟩ | ⟨jobs, hjobs, hschedules⟩ :=
          w.runOn_cases c (c.sources request) d branch b
            ((c.sources request).backend? c.host).warnings
        · refine .inl ⟨?_, hnotes⟩
          obtain ⟨path, fault, hpath, hstore⟩ | hskipped | ⟨fault, hfault⟩ := hnone
          · exact .noHistory hpath hstore
          · exact .skipped hload hbranch hskipped
          · exact .unexpanded hload hfault
        · exact .inr ⟨d, b, jobs, rfl, hjobs, hschedules⟩

/-- A document that a command loads is that of a decoded file. -/
theorem loadDocument_eq_ok {w : Workplace} {path : Text} {d : PipelineDocument}
    (h : w.loadDocument path = .ok d) :
    ∃ bytes ks v, w.Holds path (some bytes) ∧ Yaml.decode bytes = .ok (v, ks) ∧
      PipelineDocument.ofKnotted ks v = .ok d := by
  unfold loadDocument at h
  dsimp only at h
  split at h
  · rename_i bytes hbytes
    obtain ⟨_, v, ks, hsome, hdecode, hd⟩ := PipelineDocument.load_eq_ok (eq_ok_of_mapError h)
    cases hsome
    exact ⟨bytes, ks, v, hbytes, hdecode, hd⟩
  · cases h
  · cases h

end Workplace

/-! ## All limits -/

/-- A limit that does not pass is a configuration error. -/
theorem DocumentFault.OfBadLimit.isConfiguration {ks : Knots} {i : Nat} {x : Value}
    {fault : DocumentFault}
    (h : fault.OfBadLimit ks i x) : (LoadFault.document fault).isConfiguration = true := by
  cases h <;> rfl

/-- What becomes of the limits of a decoded document. -/
structure Schema.SettlesLimits (ks : Knots) (v : Value) : Prop extends RefusesLimits ks v where
  configuration : ∀ i x fault, DocumentFault.OfBadLimit ks i x fault →
    (LoadFault.document fault).isConfiguration = true
  accepted : LimitsOnGrid ks v → ∀ d vars jobs, PipelineDocument.ofKnotted ks v = .ok d →
    expandAll d.jobs vars = .ok jobs → ∀ i ∈ jobs, ∃ x ∈ jobsOf ks v, i.Limited ks x

namespace Workplace

/-- **All limits that a command hands to the scheduler are positive, unless the undefined number
was asked for.** This holds for every command, with whatever options and environment. The time
limits are those of the jobs of the document, and what holds of them holds of every decoded value
that stands for a document, from a file or not. -/
theorem limits_handed_over (w : Workplace) (c : Circumstances) (request : RunRequest) :
    (w.Withheld c request ∧ (w.runPipeline c request).1.notes = [] ∨
      ∃ bytes ks v d b jobs, w.Holds request.document (some bytes) ∧ Yaml.decode bytes =
      .ok (v, ks) ∧
        PipelineDocument.ofKnotted ks v = .ok d ∧
        expandAll d.jobs ((c.sources request).variablesFor d) = .ok jobs ∧
        (w.runPipeline c request).1.Schedules ((c.sources request).engine b c.epoch) jobs ∧
        ∀ i ∈ jobs, ∃ x ∈ Schema.jobsOf ks v, i.Limited ks x) ∧
      (c.sources request).FindsLimits ∧
      (∀ b, ((c.sources request).engine b c.epoch).Limited (c.sources request).askedGrace) ∧
      ∀ ks v, Schema.SettlesLimits ks v := by
  refine ⟨?_, (c.sources request).findsLimits, fun b => (c.sources request).limited_engine b
    c.epoch, ?_⟩
  · obtain hwithheld | ⟨d, b, jobs, hload, hjobs, hschedules⟩ :=
      w.withheld_or_schedules c request
    · exact .inl hwithheld
    · obtain ⟨bytes, ks, v, hholds, hdecode, hd⟩ := loadDocument_eq_ok hload
      have hlimited := PipelineDocument.limited_instances hd
        (Schema.limitsOnGrid_of_decode hdecode) hjobs
      exact .inr ⟨bytes, ks, v, d, b, jobs, hholds, hdecode, hd, hjobs, hschedules, hlimited⟩
  · intro ks v
    exact
      { toRefusesLimits := PipelineDocument.refusesLimits ks v
        configuration := fun _ _ _ h => h.isConfiguration
        accepted := fun hgrid _ _ _ hd hjobs =>
          PipelineDocument.limited_instances hd hgrid hjobs }

/-- A file with a job that has half a minute. -/
def halfMinuteFile : List UInt8 :=
  ("trigger:\n  branches: [main]\njobs:\n- name: build\n  timeout_minutes: 0.5\n" ++
    "  steps:\n  - script: make\n").toUTF8.toList

/-- Circumstances with two settings that do not pass, and one that does. -/
def hastyCircumstances : Circumstances :=
  { bareCircumstances with
    environment := [("PIPELINE_MAX_CONCURRENCY", "0"), ("PIPELINE_OUTPUT_LIMIT", "many"),
      ("PIPELINE_TEARDOWN_GRACE", "2.5")] }

/-- Half a minute is a limit that passes. Of the settings, the first two are replaced by the
defaults. -/
theorem limits_handed_over_halfMinute :
    ∃ b jobs, ((withFile halfMinuteFile).runPipeline hastyCircumstances mainRequest).1.Schedules
        ((hastyCircumstances.sources mainRequest).engine b 0) jobs ∧
      jobs.length = 1 ∧ (∀ i ∈ jobs, i.timeoutSeconds.IsPositive) ∧
      ((hastyCircumstances.sources mainRequest).engine b 0).maxConcurrency = 2 ∧
      ((hastyCircumstances.sources mainRequest).engine b 0).outputLimit = 65536 ∧
      ((hastyCircumstances.sources mainRequest).engine b 0).graceSeconds.IsPositive := by
  obtain ⟨hcommand, -, hengine, -⟩ :=
    limits_handed_over (withFile halfMinuteFile) hastyCircumstances mainRequest
  obtain hwithheld | ⟨bytes, ks, v, d, b, jobs, hholds, hdecode, hd, hjobs, hschedules,
    hlimited⟩ := hcommand
  · exact absurd hwithheld.1 (by decide +kernel)
  · obtain rfl : halfMinuteFile = bytes := by
      cases hholds
      rfl
    -- The file is decoded once, for all that has to be known of it.
    have hchecked : ((Yaml.decode halfMinuteFile).toOption.bind fun (v, ks) =>
        (PipelineDocument.ofKnotted ks v).toOption.bind fun d =>
          (expandAll d.jobs ((hastyCircumstances.sources mainRequest).variablesFor
              d)).toOption.map fun jobs =>
            (jobs.length, decide (∀ x ∈ Schema.jobsOf ks v,
              ¬ (Schema.limitOf ks x).IsUndefined))) =
        some (1, true) := by
      decide +kernel
    rw [hdecode] at hchecked
    obtain ⟨hone, hdefined⟩ :
        jobs.length = 1 ∧ ∀ x ∈ Schema.jobsOf ks v, ¬ (Schema.limitOf ks x).IsUndefined := by
      simpa [hd, hjobs, Except.toOption] using hchecked
    have hconcurrency : (hastyCircumstances.sources mainRequest).maxConcurrency.value = 2 := by
      decide +kernel
    have hlimit : (hastyCircumstances.sources mainRequest).outputLimit.value = 65536 := by
      decide +kernel
    refine ⟨b, jobs, hschedules, hone, ?_, hconcurrency, hlimit, ?_⟩
    · intro i hi
      obtain ⟨x, hx, hlimited⟩ := hlimited i hi
      obtain ⟨-, hpos⟩ | ⟨hundefined, -⟩ := hlimited.sign
      · exact hpos
      · exact absurd hundefined (hdefined x hx)
    · obtain hpos | ⟨hasked, -⟩ := (hengine b).grace
      · exact hpos
      · exact absurd hasked (by decide +kernel)

/-- **Limits are not always positive**: the undefined number passes in a document and as a
setting. -/
theorem undefined_limits :
    (¬ ∀ (ks : Knots) (v : Value) (d : PipelineDocument) (vars : Bindings)
        (jobs : List JobInstance),
        Schema.LimitsOnGrid ks v → PipelineDocument.ofKnotted ks v = .ok d →
        expandAll d.jobs vars = .ok jobs →
          ∀ i ∈ jobs, i.timeoutSeconds.IsPositive) ∧
      ¬ ∀ (s : Sources) (b : Backend) (epoch : Nat),
      (s.engine b epoch).graceSeconds.IsPositive := by
  constructor
  · intro hpositive
    -- A limit that is no number passes the check, as it is not at most zero.
    let v := PipelineDocument.decodedBuild (.float .nan) .null
    have hgrid : Schema.LimitsOnGrid [] v := by
      rintro x hx
      obtain rfl := List.mem_singleton.1 hx
      trivial
    have hundefined : ((PipelineDocument.ofKnotted [] v).toOption.bind fun d =>
        (expandAll d.jobs []).toOption.map (List.map JobInstance.timeoutSeconds)) =
        some [.nan] := by
      decide +kernel
    obtain ⟨d, hd, hlimits⟩ := Option.bind_eq_some_iff.1 hundefined
    obtain ⟨jobs, hjobs, hlimits⟩ := Option.map_eq_some_iff.1 hlimits
    obtain ⟨i, hi, hnan⟩ := List.mem_map.1 (hlimits ▸ List.mem_singleton_self Binary64.nan)
    have hpos := hpositive [] v d [] jobs hgrid (eq_ok_of_toOption hd)
      (eq_ok_of_toOption hjobs) i hi
    rw [hnan] at hpos
    exact Binary64.not_isPositive_nan hpos
  · intro hpositive
    let s : Sources := ⟨.none, [("PIPELINE_TEARDOWN_GRACE", "nan")]⟩
    have hpos := hpositive s (.onHost bareCircumstances.host ⟨"/", none⟩) 0
    exact absurd hpos (by decide +kernel)

end Workplace

end Conveyor
