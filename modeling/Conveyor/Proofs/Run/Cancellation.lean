import Conveyor.Proofs.Run.Verdict
import Conveyor.Proofs.Schedule.Cancellation

/-!
# Canceled runs

A run that was canceled starts no script any more. Jobs that are queued are turned away, and
those in flight are interrupted. All later runs on the same floor are canceled from the start.

- `RunReport.Barred`: a canceled run of which no job was started.
- `Engine.barred_runChange`: **every run on a canceled floor is canceled, without starting
  anything**.
- `Engine.heeds_cancellation`: **every schedule heeds the cancellation of its run**, and so does
  every later run.
-/

namespace Conveyor

variable {σ : Type} {e : Engine} {document : PipelineDocument} {vars : Bindings}
    {change : Change}
  {jobs : List JobInstance}

/-- Jobs are expanded to at least one. -/
theorem expandAll_ne_nil {templates : List JobTemplate} {vars : Bindings}
    (h : expandAll templates vars = .ok jobs) (hne : templates ≠ []) : jobs ≠ [] := by
  obtain ⟨-, hforall⟩ := expandAll_eq_ok h
  rintro rfl
  cases templates with
  | nil => exact hne rfl
  | cons t rest =>
    have hnil : JobTemplate.variantsOf (t :: rest) = [] := List.forall₂_nil_right_iff.1 hforall
    rw [JobTemplate.variantsOf, List.flatMap_cons, List.append_eq_nil_iff,
      List.map_eq_nil_iff] at hnil
    have hvariants := hnil.1
    unfold JobTemplate.expandedVariants at hvariants
    split at hvariants
    · cases hvariants
    · rename_i hsome
      exact hsome (List.isEmpty_iff.2 (List.map_eq_nil_iff.1 hvariants))

/-- A run is canceled, and none of its jobs was ever started: nothing is seen of any flight but
those that were there before, and no script begins. -/
structure RunReport.Barred (report : RunReport σ) (jobs : List JobInstance) (first : Nat) :
    Prop where
  outcome : ∃ r, report.outcome = .ok r ∧ r.status = .canceled ∧
    List.Forall₂ (fun i j => j.NeverStarted i) jobs r.jobs
  schedule : ∃ s, report.schedule = some s ∧ s.jobs = jobs ∧ s.ids.length = first ∧
    (∀ x ∈ s.sightings, x.note.begins = false) ∧
    ∀ x ∈ s.sightings, ∀ f, x.flight = some f → f < first
  canceled : report.floor.around.canceled = true

namespace Engine

section

variable {sink : Option (Sink σ)} {fl : Floor (Notebook σ)}

/-- A run on a floor that was canceled comes to a result, if its sink takes no time. -/
theorem exists_outcome_of_canceled (ho : e.Opens fl) (hc : fl.around.canceled = true)
    (hstop : fl.Unstopped)
    (hfault : e.concurrencyFault? = none) (hprompt : ∀ s ∈ sink, s.Prompt)
    (htrigger : document.trigger.triggers change.branch change.paths = true)
    (hexpand : expandAll document.jobs (vars.update document.sharedVariables) = .ok jobs)
    (hjobs : jobs ≠ []) : ∃ r, (e.runChange document vars sink change fl).outcome = .ok r := by
  obtain ⟨m, hregisters⟩ := e.exists_registers hprompt change jobs fl
  have ho' := (hregisters.opens ho).1
  obtain ⟨s, fl', hrun, hfinished, -⟩ :=
    exists_schedule_of_canceled ho' hc (prompt_record hprompt _) hstop hfault hjobs
  obtain ⟨results, hresults, -⟩ :=
    neverStarted_results ho' hc (expandAll_eq_ok hexpand).1 hrun hfinished
  obtain ⟨r, hr, -⟩ := exists_runChange hprompt htrigger hexpand hregisters hrun hresults
  exact ⟨r, hr⟩

/-- **Every run on a floor that was canceled is canceled, without starting anything**, if it
comes to a result. -/
theorem barred_runChange (ho : e.Opens fl) (hc : fl.around.canceled = true)
    (htrigger : document.trigger.triggers change.branch change.paths = true)
    (hne : document.jobs ≠ [])
    (hexpand : expandAll document.jobs (vars.update document.sharedVariables) = .ok jobs)
    {r : RunResult} (hr : (e.runChange document vars sink change fl).outcome = .ok r) :
    (e.runChange document vars sink change fl).Barred jobs fl.flights.length := by
  have hids := (expandAll_eq_ok hexpand).1
  have hjobs := expandAll_ne_nil hexpand hne
  cases answers_runChange ho hr with
  | skipped trigger status jobs schedule start finish later idles =>
    rw [htrigger] at trigger
    cases trigger
  | @ran jobs' s fl₁ fl₂ trigger expand registers run results status schedule start finish
      ended =>
    rw [hexpand] at expand
    obtain rfl : jobs = jobs' := Except.ok.inj expand
    obtain ⟨ho', hidles⟩ := registers.opens ho
    have hc' := hidles.canceled hc
    have hfinished := (ScheduleReport.results_eq_some.1 results).1
    obtain ⟨results', hresults, hnever⟩ := neverStarted_results ho' hc' hids run hfinished
    rw [results] at hresults
    obtain rfl := Option.some.inj hresults
    obtain ⟨m, hl, rfl, -, haround, -⟩ := ho'.isOpen.exists_end run
    have hu := ho'.isOpen.underway_staff jobs
    have hlength : m.flights.length = fl.flights.length :=
      (Floor.length_of_canceled hu.orderly hc' hl).trans hidles.flights
    have hsome : r.jobs ≠ [] := fun hnil =>
      hjobs (List.eq_nil_of_length_eq_zero (hnever.length_eq.trans (congrArg List.length hnil)))
    have hcanceled : ∀ j ∈ r.jobs, j.status = .canceled := by
      intro j hj
      obtain ⟨i, -, hij⟩ := exists_mem_of_forall₂ hnever hj
      exact hij.status
    refine ⟨⟨r, hr, ?_, hnever⟩, ⟨_, schedule, rfl, ?_, fun x hx => ?_, fun x hx f hf => ?_⟩, ?_⟩
    · rw [status]
      exact verdict_of_all_canceled hsome hcanceled
    · show (m.flights.map _).length = _
      rw [List.length_map, hlength]
    · obtain ⟨before, after, hsplit⟩ := List.append_of_mem hx
      refine Bool.eq_false_of_not_eq_true fun hbegins => ?_
      have hrun := ((obeys_reportOf ho' hl).silent before x after hsplit hbegins).1
      rw [hc'] at hrun
      cases hrun
    · rw [← hlength]
      exact (hu.leads hl).orderly.numbered.seen x (List.mem_reverse.1 hx) f hf
    · refine ended.canceled ?_
      rw [haround]
      exact Floor.canceled_leads hu.orderly hl hc'

end

/-- **Every schedule heeds the cancellation of its run**, at each of its moments and in its end;
and once somebody has canceled a run, so is every later run on the same floor that comes to a
result, as every run does whose sink takes no time. -/
theorem heeds_cancellation {fl : Floor σ} (ho : e.Opens fl) (jobs : List JobInstance) :
    (∀ m, e.Leads (e.staff jobs fl) m →
      (m.reportOf jobs).Obeys fl.flights.length fl.around.canceled ∧
        (e.Punctual jobs fl → (m.reportOf jobs).Prompt fl.flights.length fl.around.canceled)) ∧
    (∀ s fl', e.reportSchedule jobs fl = some (s, fl') →
      s.Obeys fl.flights.length fl.around.canceled ∧
        (e.Punctual jobs fl → s.Prompt fl.flights.length fl.around.canceled) ∧
        (s.ending = .finished → s.Settled e fl.flights.length fl.around.canceled)) ∧
    ∀ (τ : Type) (later : Floor (Notebook τ)) (document : PipelineDocument) (vars : Bindings)
      (change : Change) (sink : Option (Sink τ)) (instances : List JobInstance), e.Opens later →
      later.around.canceled = true → document.trigger.triggers change.branch change.paths =
      true →
      document.jobs ≠ [] →
      expandAll document.jobs (vars.update document.sharedVariables) = .ok instances →
      ((∃ r, (e.runChange document vars sink change later).outcome = .ok r) ∨
        later.Unstopped ∧ e.concurrencyFault? = none ∧ ∀ s ∈ sink, s.Prompt) →
        (e.runChange document vars sink change later).Barred instances later.flights.length := by
  refine ⟨fun m hl => ⟨obeys_reportOf ho hl, fun hp => prompt_reportOf ho hp hl⟩,
      fun s fl' hrun => ?_,
    fun τ later document vars change sink instances ho hc htrigger hne hexpand hover => ?_⟩
  · obtain ⟨m, hl, rfl, -, -, hend⟩ := ho.isOpen.exists_end hrun
    refine ⟨obeys_reportOf ho hl, fun hp => prompt_reportOf ho hp hl, fun hfinished => ?_⟩
    obtain ⟨hstop, hdone, hqueue⟩ := hend hfinished
    exact settled_reportOf ho hl hstop hdone hqueue
  · obtain ⟨r, hr⟩ : ∃ r, (e.runChange document vars sink change later).outcome = .ok r := by
      rcases hover with hover | ⟨hstop, hfault, hprompt⟩
      · exact hover
      · exact exists_outcome_of_canceled ho hc hstop hfault hprompt htrigger hexpand
          (expandAll_ne_nil hexpand hne)
    exact barred_runChange ho hc htrigger hne hexpand hr

/-- The first job cancels the run, the second is in flight then, and the third is queued. -/
def haltedJobs : List JobInstance :=
  [.rehearsal "a" "" (.ofInt 60) ["sleep 10; cancel", "exit 0"],
   .rehearsal "b" "" (.ofInt 60) ["sleep 30", "exit 0"], .rehearsal "c" "" (.ofInt 60)
   ["exit 0"]]

theorem heeds_cancellation_halted :
    ∃ s fl', (rehearsal .smooth 2).reportSchedule haltedJobs (.start 0 0 ()) = some (s, fl') ∧
      s.ending = .finished ∧
      (s.sightings.filter fun x => x.note.begins).map Sighting.flight = [some 0, some 1] ∧
      (s.completed.map fun c => (c.2.jobId, c.2.status)) =
        ([("a", .canceled), ("c", .canceled), ("b", .canceled)] : List (Text × JobStatus)) ∧
      s.Obeys 0 false ∧ s.Settled (rehearsal .smooth 2) 0 false := by
  have hrun : ((rehearsal .smooth 2).reportIn 80 haltedJobs (.start 0 0 ())).map
      (fun r => (r.1.ending, (r.1.sightings.filter fun x => x.note.begins).map Sighting.flight,
        r.1.completed.map fun c => (c.2.jobId, c.2.status))) =
      some (.finished, [some 0, some 1],
        ([("a", .canceled), ("c", .canceled), ("b", .canceled)] : List (Text × JobStatus))) := by
    decide +kernel
  obtain ⟨⟨s, fl'⟩, hreport, hseen⟩ := Option.map_eq_some_iff.1 hrun
  simp only [Prod.mk.injEq] at hseen
  obtain ⟨hfinished, hcalls, hcompleted⟩ := hseen
  have hschedule := reportSchedule_of_reportIn rfl hreport
  obtain ⟨hobeys, -, hsettled⟩ :=
    (heeds_cancellation (σ := Unit) (.start 0 0 ()) haltedJobs).2.1 s fl' hschedule
  exact ⟨s, fl', hschedule, hfinished, hcalls, hcompleted, hobeys, hsettled hfinished⟩

/-- The first job cancels the run before the second, which is in flight, finds that it gets no
unit. -/
def crossedJobs : List JobInstance :=
  [.rehearsal "a" "" (.ofInt 60) ["cancel"], .rehearsal "b" "bad" (.ofInt 60) ["exit 0"]]

/-- **A job that is in flight when the run is canceled, and not overdue, may still fail**: if its
body is over before its worker learns of the cancellation, the worker takes the result of the
body. -/
theorem failed_in_flight :
    ∃ s fl' before r, (rehearsal choosyPlan 2).reportSchedule crossedJobs (.start 0 0 ()) =
    some (s, fl') ∧
      s.ending = .finished ∧ s.CanceledAfter before 0 ∧ 1 ∈ underway 0 2 before ∧
      (JobInstance.rehearsal "b" "bad" (.ofInt 60) ["exit 0"]).overdueAt 0 0 = false ∧
      s.resultFor "b" = some r ∧ r.status = .failed := by
  have hrun : ∃ r, (rehearsal choosyPlan 2).reportIn 80 crossedJobs (.start 0 0 ()) = some r ∧
      decide (r.1.ending = .finished ∧ (∀ x ∈ r.1.sightings.take 7, x.note ≠ .canceled) ∧
        ((r.1.sightings.drop 7).head?.map fun x => (x.time, x.note)) = some (0, .canceled) ∧
        1 ∈ underway 0 2 (r.1.sightings.take 7) ∧
        (r.1.resultFor "b").map JobResult.status = some .failed) = true :=
    (Option.any_eq_true _ _).1 (by decide +kernel)
  obtain ⟨⟨s, fl'⟩, hreport, hseen⟩ := hrun
  simp only [decide_eq_true_eq, Option.map_eq_some_iff, Prod.mk.injEq] at hseen
  obtain ⟨hfinished, hbefore, ⟨x, hx, htime, hnote⟩, hway, r, hr, hstatus⟩ := hseen
  obtain ⟨after, hafter⟩ := List.head?_eq_some_iff.1 hx
  have hsplit : s.sightings = s.sightings.take 7 ++ x :: after := by
    rw [← hafter, List.take_append_drop]
  exact ⟨s, fl', _, r, reportSchedule_of_reportIn rfl hreport, hfinished,
    ⟨hbefore, x, after, hsplit, hnote, htime⟩, hway, by decide +kernel, hr, hstatus⟩

end Engine

end Conveyor
