import Conveyor.Proofs.Run.Answers
import Conveyor.Proofs.Schedule.Timekeeping

/-!
# The time that runs take

A run starts before its jobs and ends after them. On the way, every job takes at least the time
of its steps, and no more than its limits allow.

- `JobResult.Shown`: what the times that a result shows say of these limits;
  `JobResult.Kept.shown`.
- `Engine.between_runChange`: **the jobs of a run start and end within it**.
- `Engine.keeps_time`: **jobs, schedules and runs take their time, and no more**.
-/

namespace Conveyor

variable {σ : Type} {e : Engine} {document : PipelineDocument} {vars : Bindings}
    {change : Change}
  {jobs : List JobInstance} {r : RunResult}

/-- What the times say that the result of a job shows, which are in microseconds: no less than
the steps took, and as much less than a microsecond beyond the limits as the clock is finer than
they are. -/
structure JobResult.Shown (e : Engine) (i : JobInstance) (r : JobResult) (start stop : Nat) :
    Prop where
  startedAt : r.startedAt = some (.ofMicros start)
  finishedAt : r.finishedAt = .ofMicros stop
  steps : start + 1000 * spentMs r.steps ≤ stop
  bound : ∀ limit patience, Span.ofSeconds i.timeoutSeconds = .finite limit →
    e.patience = .finite patience →
      1000 * ((stop : Int) - start) < max 0 limit + max 0 patience + 1000
  late : r.status = .timedOut → ∃ limit, Span.ofSeconds i.timeoutSeconds = .finite limit ∧
    limit < 1000 * ((stop : Int) - start) + 1000

/-- A job that keeps its limits shows it. -/
theorem JobResult.Kept.shown {i : JobInstance} {start time : Nat} {r : JobResult}
    (h : r.Kept e i start time) :
    r.Shown e i (e.epoch + start / nanosPerMicro) (e.epoch + time / nanosPerMicro) := by
  have hsteps := h.steps
  refine ⟨h.startedAt, h.finishedAt, ?_, fun limit patience hlimit hpatience => ?_,
    fun hstatus => ?_⟩
  · simp only [nanosPerMilli, nanosPerMicro] at hsteps ⊢
    omega
  · have hbound := h.bound limit patience hlimit hpatience
    simp only [nanosPerMicro]
    omega
  · obtain ⟨limit, hlimit, hlate⟩ := h.late hstatus
    refine ⟨limit, hlimit, ?_⟩
    simp only [nanosPerMicro]
    omega

/-- A result is that of a job that was never started, or of one that started and ended between
two times. -/
def JobResult.Between (e : Engine) (start stop : Nat) (r : JobResult) : Prop :=
  r.startedAt = none ∨ ∃ t u, start ≤ t ∧ u ≤ stop ∧ r.Spans e t u

namespace Engine

open Floor

/-- The jobs of a schedule start and end within it. -/
theorem between_completed {fl fl' : Floor σ} {s : ScheduleReport} (ho : e.Opens fl)
    (hrun : e.reportSchedule jobs fl = some (s, fl')) {t : Nat} {r : JobResult}
    (hr : (t, r) ∈ s.completed) : r.Between e fl.now s.endedAt := by
  obtain ⟨m, hl, rfl, -⟩ := ho.isOpen.exists_end hrun
  rcases ho.isOpen.started_or_seen hl hr with hnone | ⟨f, hs⟩
  · exact .inl hnone
  · obtain ⟨v, k, -, -, -, -, -, -, hstart, hend, hspans⟩ := ho.isOpen.spans_of_seen hl hs
    exact .inr ⟨_, t, hstart, hend, hspans⟩

/-- **The jobs of a run start and end within it**, whatever its sink does. -/
theorem between_runChange {sink : Option (Sink σ)} {fl : Floor (Notebook σ)} (ho : e.Opens fl)
    (h : (e.runChange document vars sink change fl).outcome = .ok r) :
    ∃ start stop, r.startedAt = e.stampAt start ∧ r.finishedAt = e.stampAt stop ∧ start ≤ stop ∧
      ∀ j ∈ r.jobs, j.Between e start stop := by
  cases answers_runChange ho h with
  | @skipped stop trigger status jobs schedule start finish later idles =>
    refine ⟨fl.now, stop, start, finish, later, fun j hj => ?_⟩
    rw [jobs] at hj
    cases hj
  | @ran jobs s fl₁ fl₂ trigger expand registers run results status schedule start finish =>
    obtain ⟨ho', hidles⟩ := registers.opens ho
    obtain ⟨m, hl, hs, -, haround, -⟩ := ho'.isOpen.exists_end run
    have hstop : fl₂.now = s.endedAt := by
      rw [hs]
      exact congrArg Surroundings.now haround
    have hle : (e.staff jobs fl₁).now ≤ m.now :=
      now_le_leads (ho'.isOpen.underway_staff jobs).orderly hl
    have hlast : fl₁.now ≤ s.endedAt := by
      rw [hs]
      exact hle
    refine ⟨fl.now, s.endedAt, start, hstop ▸ finish, Nat.le_trans hidles.now hlast,
      fun j hj => ?_⟩
    rw [← (ScheduleReport.results_eq_some.1 results).2] at hj
    obtain ⟨i, -, hi⟩ := List.mem_filterMap.1 hj
    obtain ⟨t, hmem, -⟩ := ScheduleReport.resultFor_eq_some hi
    -- The run began before its schedule, as the sink was told of it first.
    rcases between_completed ho' run hmem with hnone | ⟨t, u, hstart, hend, hspans⟩
    · exact .inl hnone
    · exact .inr ⟨t, u, Nat.le_trans hidles.now hstart, hend, hspans⟩

/-- **Jobs, schedules and runs take their time, and no more.** The steps of a job take no longer
than the job, and the job no longer than its timeout and the patience of its worker; one that
timed out took at least its timeout. The times that its result shows say the same. A schedule
whose run is canceled ends within the patience of its workers, if the receiver of results takes
no time. The jobs of a run start and end within it. -/
theorem keeps_time {fl : Floor σ} (ho : e.Opens fl) (hp : e.Punctual jobs fl)
    (hfault : e.concurrencyFault? = none) :
    (∀ s fl', e.reportSchedule jobs fl = some (s, fl') →
      (∀ t r, (t, r) ∈ s.completed → r.startedAt = none ∨
        ∃ k i start, s.jobs[k]? = some i ∧ r.jobId = i.id ∧
          s.startOf (fl.flights.length + k) = some start ∧ r.Kept e i start t ∧
          ∃ started finished, r.Shown e i started finished) ∧
      (fl.around.canceled = false → fl.receiver.Prompt → ∀ before c q, s.CanceledAfter before c →
        e.patience = .finite q → (s.endedAt : Int) ≤ c + max 0 q)) ∧
    ∀ (τ : Type) (later : Floor (Notebook τ)) (document : PipelineDocument) (vars : Bindings)
      (change : Change) (sink : Option (Sink τ)) (r : RunResult), e.Opens later →
      (e.runChange document vars sink change later).outcome = .ok r →
      ∃ start stop, r.startedAt = e.stampAt start ∧ r.finishedAt = e.stampAt stop ∧
      start ≤ stop ∧
        ∀ j ∈ r.jobs, j.Between e start stop := by
  refine ⟨fun s fl' hrun => ⟨fun t r hr => ?_, fun hc hprompt before c q hstruck hq => ?_⟩,
    fun τ later document vars change sink r hlater h => between_runChange hlater h⟩
  · obtain ⟨m, hl, rfl, -⟩ := ho.isOpen.exists_end hrun
    rcases ho.isOpen.started_or_seen hl hr with hnone | ⟨f, hs⟩
    · exact .inl hnone
    · obtain ⟨k, i, start, rfl, hi, hid, hstart, hkept⟩ := ho.isOpen.kept_of_seen hp hl hs
      exact .inr ⟨k, i, start, hi, hid, hstart, hkept, _, _, hkept.shown⟩
  · by_cases hjobs : jobs = []
    -- Without jobs, the schedule is over before anybody can cancel the run.
    · subst hjobs
      rw [e.reportSchedule_nil] at hrun
      cases hrun
      obtain ⟨-, x, after, hsplit, hnote, -⟩ := hstruck
      have hx : x ∈ fl.sightings := by
        rw [show fl.sightings = before ++ x :: after from hsplit]
        exact List.mem_append_right _ List.mem_cons_self
      rw [ho.canceled_of_seen x (List.mem_reverse.1 hx) hnote] at hc
      cases hc
    · obtain ⟨m, hl, rfl, -⟩ := ho.isOpen.exists_end hrun
      exact ho.isOpen.now_le_of_canceled ho.canceled_of_seen hprompt hp
          (crew_pos hfault hjobs) hl hc
        hstruck hq

/-- A job that lingers long after its timeout, and one that is over at once. -/
def lingeringJobs : List JobInstance :=
  [.rehearsal "a" "" (.ofInt 1) ["stubborn 9000"], .rehearsal "b" "" (.ofInt 60) ["sleep 10"]]

/-- The first job is given up when a second and then the patience of six seconds are over. -/
theorem keeps_time_lingering :
    ∃ s fl' r, (rehearsal .smooth 1).reportSchedule lingeringJobs (.start 0 0 ()) =
    some (s, fl') ∧
      (7000000000, r) ∈ s.completed ∧ r.jobId = "a" ∧ r.status = .timedOut ∧
      ∃ i start, i.timeoutSeconds = .ofInt 1 ∧
      r.Kept (rehearsal .smooth 1) i start 7000000000 := by
  have hpunctual : (rehearsal .smooth 1).Punctual lingeringJobs (.start 0 0 ()) :=
    ⟨⟨by decide, by decide⟩, by decide, Timer.inOrder_nil⟩
  have hrun : ∃ r, (rehearsal .smooth 1).reportIn 80 lingeringJobs (.start 0 0 ()) = some r ∧
      decide ((r.1.completed.head?.map fun c =>
          (c.1, c.2.jobId, c.2.status, c.2.startedAt.isSome)) =
        some (7000000000, Text.ofString "a", .timedOut, true)) = true :=
    (Option.any_eq_true _ _).1 (by decide +kernel)
  obtain ⟨⟨s, fl'⟩, hreport, hseen⟩ := hrun
  simp only [decide_eq_true_eq, Option.map_eq_some_iff, Prod.mk.injEq] at hseen
  obtain ⟨⟨t, r⟩, hhead, rfl, hid, hstatus, hstarted⟩ := hseen
  have hmem : (7000000000, r) ∈ s.completed := List.mem_of_head? hhead
  have hschedule := reportSchedule_of_reportIn rfl hreport
  refine ⟨s, fl', r, hschedule, hmem, hid, hstatus, ?_⟩
  have hopens : (rehearsal .smooth 1).Opens (.start 0 0 ()) := .start 0 0 ()
  have hjobs : s.jobs = lingeringJobs := by
    obtain ⟨m, -, rfl, -⟩ := hopens.isOpen.exists_end hschedule
    rfl
  have hkeeps := (keeps_time hopens hpunctual rfl).1 s fl' hschedule
  rcases hkeeps.1 _ r hmem with hnone | ⟨k, i, start, hi, hjob, -, hkept, -⟩
  · rw [hnone] at hstarted
    cases hstarted
  · refine ⟨i, start, ?_, hkept⟩
    rw [hjobs] at hi
    have hi' : i ∈ lingeringJobs := List.mem_of_getElem? hi
    rcases List.mem_pair.1 hi' with rfl | rfl
    · rfl
    · exact absurd (hid.symm.trans hjob) (by decide)

/-- An engine whose patience is over before it begins. -/
def hasty : Engine := { rehearsal .smooth 1 with graceSeconds := .ofInt (-2) }

/-- **A limit that is negative does not shorten the others**: the job takes longer than its
timeout, the grace period and a second together. -/
theorem outlasts_hasty :
    ∃ s fl' r, hasty.reportSchedule [.rehearsal "a" "" (.ofInt 1) ["sleep 750"]]
    (.start 0 0 ()) = some (s, fl') ∧
      (750000000, r) ∈ s.completed ∧ r.startedAt = some (hasty.stampAt 0) ∧
      Span.ofSeconds (.ofInt 1) = .finite 1000000000 ∧ hasty.patience = .finite (-1000000000) ∧
      ¬(750000000 : Int) ≤ 0 + 1000000000 + -1000000000 := by
  have hrun : ∃ r, hasty.reportIn 80 [.rehearsal "a" "" (.ofInt 1) ["sleep 750"]]
      (.start 0 0 ()) = some r ∧
      decide ((r.1.completed.head?.map fun c => (c.1, c.2.startedAt)) =
        some (750000000, some (hasty.stampAt 0))) = true :=
    (Option.any_eq_true _ _).1 (by decide +kernel)
  obtain ⟨⟨s, fl'⟩, hreport, hseen⟩ := hrun
  simp only [decide_eq_true_eq, Option.map_eq_some_iff, Prod.mk.injEq] at hseen
  obtain ⟨⟨t, r⟩, hhead, rfl, hstarted⟩ := hseen
  exact ⟨s, fl', r, reportSchedule_of_reportIn rfl hreport, List.mem_of_head? hhead, hstarted,
    by decide +kernel, by decide +kernel, by decide⟩

end Engine

end Conveyor
