import Conveyor.Proofs.Run.Answers

/-!
# The verdict of a run

A run answers with success only if its change does not start it, or if every variant of every
template ran all of its steps, and all of them exited with zero.

- `verdict_eq_success`, `verdict_eq_failed`, `verdict_eq_canceled`: what the status of a run
  says.
- `ScheduleReport.Passes`: a variant of a template ran all of its steps with success.
- `Engine.exitCode_runChange`: **no false verdict**.
-/

namespace Conveyor

/-! ## Statuses -/

/-- A run fails iff one of its jobs fails or takes too long. -/
theorem verdict_eq_failed {ss : List JobStatus} :
    verdict ss = .failed ↔ ∃ s ∈ ss, s = .failed ∨ s = .timedOut := by
  have hany : (ss.any fun s => s = .failed || s = .timedOut) = true ↔
      ∃ s ∈ ss, s = .failed ∨ s = .timedOut := by simp [List.any_eq_true]
  unfold verdict
  rw [← hany]
  split
  · simp_all
  · split <;> simp_all

/-- A run is canceled iff none of its jobs fails or takes too long, and one of them is
canceled. -/
theorem verdict_eq_canceled {ss : List JobStatus} :
    verdict ss = .canceled ↔ (¬∃ s ∈ ss, s = .failed ∨ s = .timedOut) ∧ .canceled ∈ ss := by
  rw [← verdict_eq_failed]
  unfold verdict
  split
  · simp
  · split
    · rename_i hc
      simpa using hc
    · rename_i hc
      simpa using hc

/-- A run is canceled if all of its jobs are. -/
theorem verdict_of_all_canceled {rs : List JobResult} (hne : rs ≠ [])
    (hall : ∀ r ∈ rs, r.status = .canceled) : verdict (rs.map JobResult.status) = .canceled := by
  refine verdict_eq_canceled.2 ⟨?_, ?_⟩
  · rintro ⟨s, hs, hbad⟩
    obtain ⟨r, hr, rfl⟩ := List.mem_map.1 hs
    rw [hall r hr] at hbad
    rcases hbad with hbad | hbad <;> cases hbad
  · obtain ⟨r, hr⟩ := List.exists_mem_of_ne_nil rs hne
    exact List.mem_map.2 ⟨r, hr, hall r hr⟩

/-- A run of jobs is not skipped. -/
theorem verdict_ne_skipped (ss : List JobStatus) : verdict ss ≠ .skipped := by
  unfold verdict
  split
  · simp
  · split <;> simp

/-- A run succeeds iff all of its jobs do. -/
theorem verdict_eq_success {ss : List JobStatus} :
    verdict ss = .success ↔ ∀ s ∈ ss, s = .success := by
  constructor
  · intro h s hs
    cases s with
    | success => rfl
    | failed =>
      have hf : verdict ss = .failed := verdict_eq_failed.2 ⟨_, hs, .inl rfl⟩
      rw [h] at hf
      cases hf
    | timedOut =>
      have hf : verdict ss = .failed := verdict_eq_failed.2 ⟨_, hs, .inr rfl⟩
      rw [h] at hf
      cases hf
    -- A canceled job tells only if no job failed, so the two cases need each other.
    | canceled =>
      by_cases hf : ∃ s ∈ ss, s = .failed ∨ s = .timedOut
      · rw [verdict_eq_failed.2 hf] at h
        cases h
      · rw [verdict_eq_canceled.2 ⟨hf, hs⟩] at h
        cases h
  · intro h
    have hf : ¬∃ s ∈ ss, s = .failed ∨ s = .timedOut := by
      rintro ⟨s, hs, hst⟩
      rw [h s hs] at hst
      rcases hst with hst | hst <;> cases hst
    have hc : JobStatus.canceled ∉ ss := fun hs => nomatch h _ hs
    cases hv : verdict ss with
    | success => rfl
    | failed => exact absurd (verdict_eq_failed.1 hv) hf
    | canceled => exact absurd (verdict_eq_canceled.1 hv).2 hc
    | skipped => exact absurd hv (verdict_ne_skipped ss)

theorem RunStatus.exitCode_eq_failed {s : RunStatus} : s.exitCode = exitFailed ↔
    s = .failed := by
  cases s <;> simp [exitCode, exitSuccess, exitFailed, exitCanceled]

theorem RunStatus.exitCode_eq_canceled {s : RunStatus} :
    s.exitCode = exitCanceled ↔ s = .canceled := by
  cases s <;> simp [exitCode, exitSuccess, exitFailed, exitCanceled]

/-! ## The verdict -/

variable {σ : Type} {e : Engine} {document : PipelineDocument} {vars : Bindings}
    {change : Change}
  {sink : Option (Sink σ)} {fl : Floor (Notebook σ)} {r : RunResult}

/-- A variant of a template ran: all of its steps were executed, and exited with zero. -/
structure ScheduleReport.Passes (s : ScheduleReport) (v : JobTemplate × Option Text)
    (r : JobResult) : Prop where
  id : r.jobId = instanceId v.1.name v.2
  templateName : r.templateName = v.1.name
  variant : r.variant = v.2
  status : r.status = .success
  steps : Passed v.1.steps r.steps
  /-- The scripts of all steps began, in order, before the result was there. -/
  executed : ∃ f time before after, s.ids[f]? = some r.jobId ∧
    s.seenOf f = before ++ (time, .completed r) :: after ∧
    begunAmong (before.map Prod.snd) = v.1.steps.map StepSpec.script

theorem ScheduleReport.Settles.passes {s : ScheduleReport} {v : JobTemplate × Option Text}
    {i : JobInstance} {r : JobResult} (h : s.Settles e i r) (hi : JobTemplate.Instance v i)
    (hr : r.status = .success) : s.Passes v r := by
  have hid := h.jobId
  obtain ⟨start, time, recorded, hres⟩ := h.result
  cases h with
  | turnedAway seen result =>
    rw [result] at hr
    cases hr
  | @flown f time x before after id job seen warrant =>
    subst job
    obtain ⟨hpassed, hbegun⟩ := warrant.success hr
    rw [hi.steps] at hpassed hbegun
    refine ⟨hid.trans hi.id, ?_, ?_, hr, hpassed, f, time, before, after, hid ▸ id, seen, hbegun⟩
    · rw [hres]
      exact hi.templateName
    · rw [hres]
      exact hi.variant

/-- A schedule all of whose jobs succeed ran all variants. -/
theorem ScheduleReport.forall₂_passes {s : ScheduleReport}
    {vs : List (JobTemplate × Option Text)} {jobs : List JobInstance}
    {results : List JobResult}
    (hinstances : List.Forall₂ JobTemplate.Instance vs jobs)
    (hsettles : List.Forall₂ (s.Settles e) jobs results)
    (hsuccess : ∀ j ∈ results, j.status = .success) : List.Forall₂ s.Passes vs results := by
  induction hinstances generalizing results with
  | nil =>
    cases hsettles
    exact .nil
  | cons hi _ ih =>
    cases hsettles with
    | cons hfirst hrest =>
      exact .cons (hfirst.passes hi (hsuccess _ List.mem_cons_self))
        (ih hrest fun j hj => hsuccess j (List.mem_cons_of_mem _ hj))

/-- **No false verdict.** A run that has a result answers with success iff its change does not
start it, or each variant of each template has one result, in order, and ran all of its steps
with success. It answers with a failure iff some job failed or took too long, and that it was
canceled iff none did and some job was canceled. A run that its change does not start takes no
job, and unless its sink takes time, nothing at all happens on the floor. -/
theorem Engine.exitCode_runChange (ho : e.Opens fl)
    (h : (e.runChange document vars sink change fl).outcome = .ok r) :
    (r.status.exitCode = exitSuccess ↔
      (document.trigger.triggers change.branch change.paths = false ∧ r.status = .skipped ∧
        r.jobs = [] ∧ (e.runChange document vars sink change fl).schedule = none ∧
        (e.runChange document vars sink change fl).floor.flights.length = fl.flights.length ∧
        ((∀ s ∈ sink, s.Prompt) → ∃ names m, (e.runChange document vars sink change fl).floor =
          { (fl.begin names).forget with memory := m })) ∨
      ∃ s, (e.runChange document vars sink change fl).schedule = some s ∧
        List.Forall₂ s.Passes (JobTemplate.variantsOf document.jobs) r.jobs) ∧
    (r.status.exitCode = exitFailed ↔ ∃ j ∈ r.jobs, j.status = .failed ∨ j.status = .timedOut) ∧
    (r.status.exitCode = exitCanceled ↔
      (¬∃ j ∈ r.jobs, j.status = .failed ∨ j.status = .timedOut) ∧
        ∃ j ∈ r.jobs, j.status = .canceled) := by
  rw [RunStatus.exitCode_eq_success_iff, RunStatus.exitCode_eq_failed,
    RunStatus.exitCode_eq_canceled]
  cases Engine.answers_runChange ho h with
  | skipped trigger status jobs schedule start finish later idles =>
    refine ⟨⟨fun _ => .inl ⟨trigger, status, jobs, schedule, idles.flights,
      fun hprompt => Engine.floor_of_prompt hprompt trigger⟩, fun _ => .inr status⟩, ?_, ?_⟩
    · simp [status, jobs]
    · simp [status, jobs]
  | @ran jobs s fl₁ fl₂ trigger expand registers run results status schedule =>
    obtain ⟨hids, hinstances⟩ := expandAll_eq_ok expand
    have hsettles := Engine.settles_results (registers.opens ho).1 hids run results
    rw [status, verdict_eq_success, verdict_eq_failed, verdict_eq_canceled]
    refine ⟨⟨?_, ?_⟩, by simp, by simp⟩
    · rintro (hall | hskip)
      · have hsuccess : ∀ j ∈ r.jobs, j.status = .success :=
          fun j hj => hall _ (List.mem_map_of_mem hj)
        exact .inr ⟨s, schedule, ScheduleReport.forall₂_passes hinstances hsettles hsuccess⟩
      · exact absurd hskip (verdict_ne_skipped _)
    · rintro (⟨hfalse, -⟩ | ⟨s', -, hpasses⟩)
      · rw [trigger] at hfalse
        cases hfalse
      · refine .inl fun st hst => ?_
        obtain ⟨j, hj, rfl⟩ := List.mem_map.1 hst
        obtain ⟨v, -, hv⟩ := exists_mem_of_forall₂ hpasses hj
        exact hv.status

/-- A document with two templates, one of which has two variants. -/
def buildAndTest : PipelineDocument :=
  { trigger := ⟨["main"], [], .shallow⟩
    jobs :=
      [{ name := "build"
         platform := ⟨.text "", none⟩
         steps := [⟨"compile", "echo compiled", [], []⟩, ⟨"pack", "sleep 5", [], []⟩]
         timeoutSeconds := .ofInt 60
         jobVariables := []
         variants := [("debug", []), ("release", [])] },
       { name := "test"
         platform := ⟨.text "", none⟩
         steps := [⟨"run", "exit 0", [], []⟩]
         timeoutSeconds := .ofInt 60
         jobVariables := []
         variants := [] }]
    sharedVariables := [] }

/-- A floor for rehearsals of runs. -/
def Floor.plain : Floor (Notebook Unit) := .start 0 0 ⟨(), []⟩

/-- The change that the document is for. -/
def mainChange : Change := ⟨"main", [], none⟩

/-- The floor on which the jobs of a rehearsal without a sink are scheduled. -/
def Floor.registered : Floor (Notebook Unit) :=
  { (Floor.plain.begin (chooseRunId mainChange 0).2).forget with
    receiver := record none (chooseRunId mainChange 0).1 }

/-- A rehearsal of the document. -/
def buildAndTestReport : RunReport Unit :=
  (Engine.rehearsal .smooth 2).runChange buildAndTest [] none mainChange .plain

/-- All three jobs of the document pass. -/
theorem Engine.exitCode_runChange_buildAndTest :
    ∃ r s, buildAndTestReport.outcome = .ok r ∧ r.status.exitCode = exitSuccess ∧
      buildAndTestReport.schedule = some s ∧
      List.Forall₂ s.Passes (JobTemplate.variantsOf buildAndTest.jobs) r.jobs := by
  have htrigger : buildAndTest.trigger.triggers mainChange.branch mainChange.paths = true := by
    decide +kernel
  obtain ⟨jobs, hexpand, hjobs, hrun⟩ :
      ∃ jobs, expandAll buildAndTest.jobs (Bindings.update [] buildAndTest.sharedVariables) =
          .ok jobs ∧
        jobs.isEmpty = false ∧
        (((rehearsal .smooth 2).reportIn 80 jobs .registered).bind
          fun r => r.1.results).map (fun rs => verdict (rs.map JobResult.status)) =
          some .success :=
    ⟨_, rfl, rfl, by decide +kernel⟩
  obtain ⟨results, hbind, hverdict⟩ := Option.map_eq_some_iff.1 hrun
  obtain ⟨⟨s, fl'⟩, hreport, hres⟩ := Option.bind_eq_some_iff.1 hbind
  have hschedule := reportSchedule_of_reportIn hjobs hreport
  obtain ⟨r, hr, hrjobs⟩ : ∃ r, buildAndTestReport.outcome = .ok r ∧ r.jobs = results :=
    exists_runChange (by simp) htrigger hexpand (registers_none ..) hschedule hres
  have hopens : (rehearsal .smooth 2).Opens Floor.plain := .start 0 0 _
  have hcode : r.status.exitCode = exitSuccess := by
    cases answers_runChange hopens hr with
    | skipped trigger status jobs schedule start finish later idles =>
      rw [htrigger] at trigger
      cases trigger
    | ran trigger expand registers run results status schedule =>
      rw [status, hrjobs, hverdict]
      rfl
  rcases (exitCode_runChange hopens hr).1.1 hcode with ⟨hskip, -⟩ | ⟨s, hs, hpasses⟩
  · rw [htrigger] at hskip
    cases hskip
  · exact ⟨r, s, hr, hcode, hs, hpasses⟩

end Conveyor
