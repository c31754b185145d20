import Conveyor.Proofs.Job.Expansion
import Conveyor.Proofs.Schedule.Accounts
import Conveyor.Proofs.Schedule.Moments
import Conveyor.Run.Coordinator

/-!
# How runs come to their results

A run tells its sink that it has begun, and waits until the sink knows. If its change starts it,
its jobs are scheduled then, and their results make up that of the run. The sink may take its
time on all of this, and it may fail.

- `Engine.Registers`: the floor on which the jobs of a run are scheduled;
  `Engine.Registers.opens` says that they can be.
- `Engine.Answers`: how a run comes to its result; `Engine.answers_runChange` shows it.
- `Sink.Prompt`: a sink that takes no time; `Engine.exists_runChange`: with such a sink a run has
  a result if its schedule has.
-/

namespace Conveyor

/-- The jobs of a run can be scheduled: the sink knows of the run. -/
structure Engine.Registers {σ : Type} (e : Engine) (sink : Option (Sink σ)) (change : Change)
    (jobs : List JobInstance) (fl fl' : Floor (Notebook σ)) : Prop where
  ready : ∃ m, e.register sink (chooseRunId change fl.around.names).1 change.branch
      (e.dispatchMessage (chooseRunId change fl.around.names).1 change.branch jobs)
      (fl.begin (chooseRunId change fl.around.names).2) = (.ok (), m) ∧
    fl' = { m.forget with receiver := record sink (chooseRunId change fl.around.names).1 }

/-- How a run comes to its result: its change does not start it, or its jobs are scheduled. -/
inductive Engine.Answers {σ : Type} (e : Engine) (document : PipelineDocument) (vars : Bindings)
    (sink : Option (Sink σ)) (change : Change) (fl : Floor (Notebook σ)) (report : RunReport σ)
    (r : RunResult) : Prop
  | skipped {stop : Nat} (trigger : document.trigger.triggers change.branch change.paths = false)
      (status : r.status = .skipped) (jobs : r.jobs = []) (schedule : report.schedule = none)
      (start : r.startedAt = e.stampAt fl.now) (finish : r.finishedAt = e.stampAt stop)
      (later : fl.now ≤ stop) (idles : fl.Idles report.floor) (last : stop ≤ report.floor.now)
  | ran {jobs : List JobInstance} {s : ScheduleReport} {fl₁ fl₂ : Floor (Notebook σ)}
      (trigger : document.trigger.triggers change.branch change.paths = true)
      (expand : expandAll document.jobs (vars.update document.sharedVariables) = .ok jobs)
      (registers : e.Registers sink change jobs fl fl₁)
      (run : e.reportSchedule jobs fl₁ = some (s, fl₂))
      (results : s.results = some r.jobs) (status : r.status =
          verdict (r.jobs.map JobResult.status))
      (schedule : report.schedule = some s) (start : r.startedAt = e.stampAt fl.now)
      (finish : r.finishedAt = e.stampAt fl₂.now) (idles : fl₂.Idles report.floor)

/-! ## While the sink is told -/

namespace Engine

variable {σ : Type} {e : Engine} {document : PipelineDocument} {vars : Bindings}
    {change : Change}
  {sink : Option (Sink σ)} {fl fl' : Floor (Notebook σ)} {r : RunResult} {runId branch : Text}
  {jobs : List JobInstance}

/-- A message for the log changes nothing else. -/
theorem Opens.say {τ : Type} {fl : Floor τ} (h : e.Opens fl) (level : LogLevel)
    (message : Text) :
    e.Opens (fl.say level message) := by
  have hact := h.disturb (.note (.log level message) (.finish (.done ())))
  have hsame : fl.disturb (.note (.log level message) (.finish (.done ()))) =
      fl.say level message := by
    show (fl.say level message).moveTo fl.around = fl.say level message
    exact if_neg (by simp [Floor.say, Floor.see])
  rwa [hsame] at hact

theorem Opens.begin (h : e.Opens fl) (names : Nat) : e.Opens (fl.begin names) :=
  (h.name names).tell .nobody { fl.memory with told := [] }

/-- The run goes on when the sink is done, whether it has failed or not. -/
theorem inform_eq_ok {complaint : Text} {call : SinkCall}
    (h : e.inform sink complaint call fl = (.ok (), fl')) :
    ∃ ending m ns, e.await (offer sink call) fl = some (ending, m) ∧ fl' = m.see none ns := by
  unfold inform at h
  split at h
  · cases h
  · cases h
  · rename_i fault m hawait
    cases h
    exact ⟨_, m, _, hawait, rfl⟩
  · cases h
    exact ⟨_, _, [], ‹_›, rfl⟩

theorem idles_inform {complaint : Text} {call : SinkCall} (hv : fl.Vacant e)
    (h : e.inform sink complaint call fl = (.ok (), fl')) : fl'.Vacant e ∧ fl.Idles fl' := by
  obtain ⟨ending, n, ns, hawait, rfl⟩ := inform_eq_ok h
  obtain ⟨hm, hidles⟩ := hv.idles_await hawait
  exact ⟨hm.see ns, hidles.trans ⟨Nat.le_refl _, id, rfl⟩⟩

/-- The jobs of a run are scheduled on a floor on which that is possible. -/
theorem Registers.opens (h : e.Registers sink change jobs fl fl') (ho : e.Opens fl) :
    e.Opens fl' ∧ fl.Idles fl' := by
  obtain ⟨m, hm, rfl⟩ := h.ready
  have hbegun := (ho.begin (chooseRunId change fl.around.names).2).say .info
    (e.dispatchMessage (chooseRunId change fl.around.names).1 change.branch jobs)
  obtain ⟨ending, m', ns, hawait, rfl⟩ := inform_eq_ok hm
  have hidles := (hbegun.isOpen.vacant.idles_await hawait).2
  exact ⟨(hbegun.await hawait).tell _ m'.memory, ⟨hidles.now, hidles.canceled, hidles.flights⟩⟩

/-- A run that is over has the result that was to be told to the sink. -/
theorem finishRun_eq_ok {schedule : Option ScheduleReport} {log : List LogEntry}
    {result : RunResult}
    (hv : fl.Vacant e) (h : (e.finishRun sink schedule log result fl).outcome = .ok r) :
    r = result ∧ (e.finishRun sink schedule log result fl).schedule = schedule ∧
      fl.Idles (e.finishRun sink schedule log result fl).floor := by
  unfold finishRun at h ⊢
  split at h
  · cases h
  · rename_i m hinform
    cases h
    have hidles := (idles_inform hv hinform).2
    exact ⟨rfl, rfl, hidles.now, hidles.canceled, hidles.flights⟩

/-- A run of some jobs has a result if their schedule has. -/
theorem answers_runJobs (ho : e.Opens fl)
    (htrigger : document.trigger.triggers change.branch change.paths = true)
    (hexpand : expandAll document.jobs (vars.update document.sharedVariables) = .ok jobs)
    (h : (e.runJobs sink (chooseRunId change fl.around.names).1 change.branch jobs
      (fl.begin (chooseRunId change fl.around.names).2)).outcome = .ok r) :
    e.Answers document vars sink change fl
      (e.runJobs sink (chooseRunId change fl.around.names).1 change.branch jobs
        (fl.begin (chooseRunId change fl.around.names).2)) r := by
  unfold runJobs at h ⊢
  split at h
  · cases h
  · rename_i m hregister
    have hregisters : e.Registers sink change jobs fl _ := ⟨m, hregister, rfl⟩
    split at h
    · cases h
    · rename_i s fl₂ hrun
      unfold concludeRun at h ⊢
      split at h
      · cases h
      · rename_i results hres
        have hfinished := (ScheduleReport.results_eq_some.1 hres).1
        have hopens := ((hregisters.opens ho).1.after hrun hfinished).tell .nobody fl₂.memory
        obtain ⟨rfl, hschedule, hidles⟩ := finishRun_eq_ok hopens.isOpen.vacant h
        exact .ran htrigger hexpand hregisters hrun hres rfl hschedule rfl rfl
          ⟨hidles.now, hidles.canceled, hidles.flights⟩

theorem runChange_skip (htrigger : document.trigger.triggers change.branch change.paths =
    false) :
    e.runChange document vars sink change fl =
      e.skipRun sink (chooseRunId change fl.around.names).1 change.branch
        (fl.begin (chooseRunId change fl.around.names).2) := by
  unfold runChange
  rw [htrigger]
  rfl

theorem runChange_unexpanded (htrigger : document.trigger.triggers change.branch change.paths =
    true)
    {fault : ExpansionFault}
    (hexpand : expandAll document.jobs (vars.update document.sharedVariables) = .error fault) :
    e.runChange document vars sink change fl =
      reportRun (.error (.expansion fault)) none []
      (fl.begin (chooseRunId change fl.around.names).2) := by
  unfold runChange
  rw [htrigger, hexpand]
  rfl

theorem runChange_jobs (htrigger : document.trigger.triggers change.branch change.paths = true)
    (hexpand : expandAll document.jobs (vars.update document.sharedVariables) = .ok jobs) :
    e.runChange document vars sink change fl =
      e.runJobs sink (chooseRunId change fl.around.names).1 change.branch jobs
        (fl.begin (chooseRunId change fl.around.names).2) := by
  unfold runChange
  rw [htrigger, hexpand]
  rfl

theorem schedule_finishRun (e : Engine) (sink : Option (Sink σ))
    (schedule : Option ScheduleReport)
    (log : List LogEntry) (result : RunResult) (fl : Floor (Notebook σ)) :
    (e.finishRun sink schedule log result fl).schedule = schedule := by
  unfold finishRun
  split <;> rfl

theorem schedule_concludeRun (e : Engine) (sink : Option (Sink σ)) (runId branch : Text)
    (start : Stamp)
    (s : ScheduleReport) (log : List LogEntry) (fl : Floor (Notebook σ)) :
    (e.concludeRun sink runId branch start s log fl).schedule = some s := by
  unfold concludeRun
  split
  · rfl
  · exact e.schedule_finishRun ..

/-- A run that its change does not start schedules nothing. -/
theorem schedule_skipRun (e : Engine) (sink : Option (Sink σ)) (runId branch : Text)
    (fl : Floor (Notebook σ)) : (e.skipRun sink runId branch fl).schedule = none := by
  unfold skipRun
  split
  · rfl
  · exact e.schedule_finishRun ..

/-- **How a run comes to its result.** -/
theorem answers_runChange (ho : e.Opens fl)
    (h : (e.runChange document vars sink change fl).outcome = .ok r) :
    e.Answers document vars sink change fl (e.runChange document vars sink change fl) r := by
  cases htrigger : document.trigger.triggers change.branch change.paths with
  | false =>
    rw [runChange_skip htrigger] at h ⊢
    unfold skipRun at h ⊢
    split at h
    · cases h
    · rename_i m hregister
      have hbegun := (ho.begin (chooseRunId change fl.around.names).2).say .info
        (skipMessage (chooseRunId change fl.around.names).1 change.branch)
      obtain ⟨hvacant, hwait⟩ := idles_inform hbegun.isOpen.vacant hregister
      obtain ⟨rfl, hschedule, hidles⟩ := finishRun_eq_ok hvacant h
      have hall := hwait.trans hidles
      exact .skipped htrigger rfl rfl hschedule rfl rfl hwait.now ⟨hall.now, hall.canceled,
          hall.flights⟩
        hidles.now
  | true =>
    cases hexpand : expandAll document.jobs (vars.update document.sharedVariables) with
    | error fault =>
      rw [runChange_unexpanded htrigger hexpand] at h
      cases h
    | ok jobs =>
      rw [runChange_jobs htrigger hexpand] at h ⊢
      exact answers_runJobs ho htrigger hexpand h

/-- The jobs of a run are scheduled on one floor only. -/
theorem Registers.unique (h : e.Registers sink change jobs fl fl') {fl₁ : Floor (Notebook σ)}
    (h' : e.Registers sink change jobs fl fl₁) : fl₁ = fl' := by
  obtain ⟨m, hm, rfl⟩ := h.ready
  obtain ⟨m', hm', rfl⟩ := h'.ready
  rw [hm] at hm'
  cases hm'
  rfl

end Engine

/-! ## Sinks that take no time -/

/-- A sink that never waits. -/
def Sink.Prompt {σ : Type} (sink : Sink σ) : Prop := ∀ call, (sink call).Prompt

section

variable {σ : Type} {e : Engine} {sink : Option (Sink σ)} {fl : Floor (Notebook σ)}
  {document : PipelineDocument} {vars : Bindings} {change : Change} {jobs : List JobInstance}

theorem Reception.Prompt.kept {a : Reception σ} (h : a.Prompt) : a.kept.Prompt := by
  induction h with
  | done => exact .done
  | failed fault => exact .failed fault
  | note d next ih => exact .note d ih
  | clock next ih => exact .clock ih
  | poll next ih => exact .poll ih
  | look next ih => exact .look fun n => ih n.memory
  | keep m next ih => exact .look fun n => .keep _ ih

theorem prompt_offer (h : ∀ s ∈ sink, s.Prompt) (call : SinkCall) :
    (offer sink call).Prompt := by
  cases sink with
  | none => exact .done
  | some s => exact .clock fun t => .look fun n => .keep _ (h s rfl call).kept

theorem prompt_record (h : ∀ s ∈ sink, s.Prompt) (runId : Text) : (record sink runId).Prompt :=
  fun _ => .note _ (prompt_offer h _)

namespace Engine

/-- A run does not wait for a sink that takes no time. -/
theorem inform_of_prompt (h : ∀ s ∈ sink, s.Prompt) (complaint : Text) (call : SinkCall)
    (fl : Floor (Notebook σ)) :
    ∃ m ns, e.inform sink complaint call fl = (.ok (), { fl.see none ns with memory := m }) := by
  unfold inform
  rcases (prompt_offer h call).rest_proceed fl.around fl.memory with hrest | ⟨fault, hrest⟩
  · rw [e.await_of_ended hrest]
    exact ⟨_, _, rfl⟩
  · rw [e.await_of_ended hrest]
    exact ⟨_, _, congrArg (Prod.mk (Except.ok ())) (fl.cleared_cleared fl.queue fl.queue _ _ _
      [.log .error (complaint ++ ": " ++ fault.message)])⟩

/-- The jobs of a run are scheduled on the floor on which the run begins, if the sink takes no
time. -/
theorem exists_registers (h : ∀ s ∈ sink, s.Prompt) (change : Change) (jobs : List JobInstance)
    (fl : Floor (Notebook σ)) :
    ∃ m, e.Registers sink change jobs fl
      { (fl.begin (chooseRunId change fl.around.names).2).forget with
        receiver := record sink (chooseRunId change fl.around.names).1, memory := m } := by
  obtain ⟨m, ns, hinform⟩ := e.inform_of_prompt h
    ("Failed to register run " ++ (chooseRunId change fl.around.names).1)
    (.createRun (chooseRunId change fl.around.names).1 change.branch
      (e.stampAt (fl.begin (chooseRunId change fl.around.names).2).now))
    ((fl.begin (chooseRunId change fl.around.names).2).say .info
      (e.dispatchMessage (chooseRunId change fl.around.names).1 change.branch jobs))
  exact ⟨m, _, hinform, rfl⟩

/-- Without a sink, nothing is remembered. -/
theorem registers_none (e : Engine) (change : Change) (jobs : List JobInstance)
    (fl : Floor (Notebook σ)) :
    e.Registers none change jobs fl
      { (fl.begin (chooseRunId change fl.around.names).2).forget with
        receiver := record none (chooseRunId change fl.around.names).1 } :=
  ⟨_, rfl, rfl⟩

section

variable {fl₁ fl₂ : Floor (Notebook σ)} {s : ScheduleReport} {results : List JobResult}

/-- The result of a run, from those of its jobs and the time when its schedule ended. -/
def resultFrom (e : Engine) (change : Change) (fl : Floor (Notebook σ))
    (results : List JobResult) (stop : Nat) : RunResult :=
  { runId := (chooseRunId change fl.around.names).1
    status := verdict (results.map JobResult.status)
    jobs := results
    branch := change.branch
    startedAt := e.stampAt fl.now
    finishedAt := e.stampAt stop }

/-- A run that its change starts is over with its schedule, if the sink takes no time. -/
theorem runChange_of_prompt (h : ∀ s ∈ sink, s.Prompt)
    (htrigger : document.trigger.triggers change.branch change.paths = true)
    (hexpand : expandAll document.jobs (vars.update document.sharedVariables) = .ok jobs)
    (hregisters : e.Registers sink change jobs fl fl₁)
    (hrun : e.reportSchedule jobs fl₁ = some (s, fl₂)) (hres : s.results = some results) :
    ∃ log m, e.runChange document vars sink change fl =
        reportRun (.ok (e.resultFrom change fl results fl₂.now)) (some s) log m ∧
      m.around = fl₂.around := by
  obtain ⟨m, hm, rfl⟩ := hregisters.ready
  rw [runChange_jobs htrigger hexpand, runJobs, hm]
  dsimp only
  rw [hrun]
  dsimp only
  rw [concludeRun, hres]
  dsimp only
  rw [finishRun]
  obtain ⟨n, ns, hinform⟩ := e.inform_of_prompt h ("Failed to record run " ++ _) (.completeRun _)
    { fl₂ with receiver := .nobody }
  rw [hinform]
  exact ⟨_, _, rfl, rfl⟩

/-- A run that its change starts has a result if its schedule has, and the sink takes no time. -/
theorem exists_runChange (h : ∀ s ∈ sink, s.Prompt)
    (htrigger : document.trigger.triggers change.branch change.paths = true)
    (hexpand : expandAll document.jobs (vars.update document.sharedVariables) = .ok jobs)
    (hregisters : e.Registers sink change jobs fl fl₁)
    (hrun : e.reportSchedule jobs fl₁ = some (s, fl₂)) (hres : s.results = some results) :
    ∃ r, (e.runChange document vars sink change fl).outcome = .ok r ∧ r.jobs = results := by
  obtain ⟨log, m, heq, -⟩ := runChange_of_prompt h htrigger hexpand hregisters hrun hres
  exact ⟨_, by rw [heq]; rfl, rfl⟩

end

/-- A run that its change does not start leaves the floor as it is, if the sink takes no time. -/
theorem floor_of_prompt (h : ∀ s ∈ sink, s.Prompt)
    (htrigger : document.trigger.triggers change.branch change.paths = false) :
    ∃ names m, (e.runChange document vars sink change fl).floor =
      { (fl.begin names).forget with memory := m } := by
  rw [runChange_skip htrigger, skipRun, register]
  obtain ⟨m, ns, hinform⟩ := e.inform_of_prompt h
    ("Failed to register run " ++ (chooseRunId change fl.around.names).1)
    (.createRun (chooseRunId change fl.around.names).1 change.branch
      (e.stampAt (fl.begin (chooseRunId change fl.around.names).2).now))
    ((fl.begin (chooseRunId change fl.around.names).2).say .info
      (skipMessage (chooseRunId change fl.around.names).1 change.branch))
  rw [hinform]
  dsimp only
  rw [finishRun]
  obtain ⟨m', ns', hinform'⟩ :=
    e.inform_of_prompt h ("Failed to record run " ++ _) (.completeRun _) _
  rw [hinform']
  exact ⟨_, m', rfl⟩

end Engine

end

end Conveyor
