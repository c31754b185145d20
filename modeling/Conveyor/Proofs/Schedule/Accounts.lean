import Conveyor.Proofs.Schedule.Rehearsal
import Mathlib.Data.List.Nodup

/-!
# The results of a schedule

A schedule that finishes has one result for each of its jobs, in order, whatever the units, the
scripts and the cancellation of the run did meanwhile.

- `ScheduleReport.Settles`: how a job came to its result.
- `Engine.settles_results`: **when a schedule finishes, each job has one result, in order**.
- `ScheduleReport.Accounts`: a result belongs to a job, and accounts for all of its steps.
- `Engine.accounts_results`: **all results account for all steps**.
-/

namespace Conveyor

variable {σ : Type}

/-! ## What is known of each job -/

namespace ScheduleReport

/-- What was seen of a flight, in order. -/
def seenOf (s : ScheduleReport) (f : Nat) : List TimedNote :=
  Conveyor.seenOf f s.sightings.reverse

/-- How a job came to its result: it was turned away, or it was in flight, and the notes before
the result warrant it. -/
inductive Settles (e : Engine) (s : ScheduleReport) (i : JobInstance) (r : JobResult) : Prop
  | turnedAway {time : Nat} (seen : e.refusal i time ∈ s.sightings)
      (result : r = e.resultAt i none time .canceled [])
  | flown {f time : Nat} {x : Flight} {before after : List TimedNote} (id : s.ids[f]? =
      some i.id)
      (job : x.job = i) (seen : s.seenOf f = before ++ (time, .completed r) :: after)
      (warrant : Warranted e x time (before.map Prod.snd) r)

theorem Settles.result {e : Engine} {s : ScheduleReport} {i : JobInstance} {r : JobResult}
    (h : s.Settles e i r) : ∃ start time recorded, r =
    e.resultAt i start time r.status recorded := by
  cases h with
  | @turnedAway time seen result =>
    refine ⟨none, time, [], ?_⟩
    rw [result]
    rfl
  | @flown f time x before after id job seen warrant =>
    subst job
    exact ⟨some x.takenAt, time, recordedAmong (before.map Prod.snd), warrant.result⟩

/-- The result of a job has its id. -/
theorem Settles.jobId {e : Engine} {s : ScheduleReport} {i : JobInstance} {r : JobResult}
    (h : s.Settles e i r) : r.jobId = i.id := by
  obtain ⟨start, time, recorded, hr⟩ := h.result
  rw [hr]
  rfl

theorem mem_completed {s : ScheduleReport} {t : Nat} {r : JobResult} :
    (t, r) ∈ s.completed ↔ ∃ f, ⟨t, f, .completed r⟩ ∈ s.sightings := by
  unfold completed
  rw [List.mem_filterMap]
  constructor
  · rintro ⟨⟨time, f, n⟩, hmem, heq⟩
    cases n <;> simp_all
    exact ⟨f, hmem⟩
  · rintro ⟨f, hmem⟩
    exact ⟨_, hmem, rfl⟩

/-- The result that is kept for a job id came, and has that id. -/
theorem resultFor_eq_some {s : ScheduleReport} {jobId : Text} {r : JobResult}
    (h : s.resultFor jobId = some r) : ∃ t, (t, r) ∈ s.completed ∧ r.jobId = jobId := by
  obtain ⟨⟨t, r'⟩, hfind, rfl⟩ := Option.map_eq_some_iff.1 h
  refine ⟨t, List.mem_reverse.1 (List.mem_of_find?_eq_some hfind), ?_⟩
  simpa using List.find?_some hfind

/-- A job id for which a result came has one that is kept. -/
theorem exists_resultFor {s : ScheduleReport} {t : Nat} {r : JobResult}
    (h : (t, r) ∈ s.completed) :
    ∃ r', s.resultFor r.jobId = some r' := by
  cases hfor : s.resultFor r.jobId with
  | some r' => exact ⟨r', rfl⟩
  | none =>
    have hnone := List.find?_eq_none.1 (Option.map_eq_none_iff.1 hfor) (t, r)
      (List.mem_reverse.2 h)
    exact absurd (decide_eq_true rfl) hnone

/-- Only a schedule that finished has results: those that are kept for the ids of its jobs. -/
theorem results_eq_some {s : ScheduleReport} {results : List JobResult} :
    s.results = some results ↔
      s.ending = .finished ∧ (s.jobs.filterMap fun i => s.resultFor i.id) = results := by
  unfold ScheduleReport.results
  cases s.ending <;> simp

end ScheduleReport

/-! ## The end of a schedule -/

namespace Floor

variable {e : Engine} {m : Floor σ} {jobs : List JobInstance} {first : Nat}

theorem seenOf_reportOf (jobs : List JobInstance) (m : Floor σ) (f : Nat) :
    (m.reportOf jobs).seenOf f = seenOf f m.seen := by
  simp [ScheduleReport.seenOf, reportOf, sightings]

/-- A result that came settles a job of the schedule. -/
theorem Underway.settles (h : m.Underway e jobs first) {t : Nat} {r : JobResult}
    (hr : (t, r) ∈ (m.reportOf jobs).completed) :
    ∃ i ∈ jobs, (m.reportOf jobs).Settles e i r := by
  obtain ⟨flight, hmem⟩ := ScheduleReport.mem_completed.1 hr
  have hseen : ⟨t, flight, .completed r⟩ ∈ m.seen := List.mem_reverse.1 hmem
  cases flight with
  | none =>
    obtain ⟨i, hi, hres⟩ := h.ledger.refused _ hseen rfl r rfl
    have hrefusal : e.refusal i t ∈ (m.reportOf jobs).sightings := by
      unfold Engine.refusal
      rw [← hres]
      exact hmem
    exact ⟨i, hi, .turnedAway hrefusal hres⟩
  | some f =>
    have hlt := h.orderly.numbered.seen _ hseen f rfl
    have hx : m.flights[f]? = some (m.flights.get ⟨f, hlt⟩) := List.getElem?_eq_getElem hlt
    generalize m.flights.get ⟨f, hlt⟩ = x at hx
    have hlane : m.lane? f = some (m.laneOf f x) := lane?_eq_some.2 ⟨x, hx, rfl⟩
    have hfine := h.lanes f _ hlane
    have hnote : (t, .completed r) ∈ (m.laneOf f x).seen :=
      List.mem_filterMap.2 ⟨_, List.mem_reverse.2 hseen, by simp⟩
    have hf : first ≤ f := by
      refine Nat.le_of_not_lt fun hlt => ?_
      exact (hfine.old hlt).2 r (List.mem_map.2 ⟨_, hnote, rfl⟩)
    obtain ⟨before, after, hsplit, hw⟩ := (hfine.judged hf).results t r hnote
    have hid : (m.reportOf jobs).ids[f]? = some x.job.id := by
      show (m.flights.map fun x => x.job.id)[f]? = _
      rw [List.getElem?_map, hx]
      rfl
    have hseenOf : (m.reportOf jobs).seenOf f = before ++ (t, .completed r) :: after :=
      (seenOf_reportOf jobs m f).trans hsplit
    exact ⟨x.job, h.ledger.flights f x hf hx, .flown hid rfl hseenOf hw⟩

/-- When all workers are done, a result came for every job. -/
theorem Underway.completes (h : m.Underway e jobs first)
    (hdone : ∀ worker ∈ m.workers, worker.duty = .done false) (hqueue : m.queue = [])
    {i : JobInstance} (hi : i ∈ jobs) :
    ∃ t r, (t, r) ∈ (m.reportOf jobs).completed ∧ r.jobId = i.id := by
  have hstop : ¬m.Stopped := by
    rintro ⟨worker, hw, hduty⟩
    rw [hdone worker hw] at hduty
    cases hduty
  rcases h.ledger.kept i hi with hq | ⟨f, x, hf, hx, hjob⟩ | ⟨time, hseen⟩
  · rw [hqueue] at hq
    cases hq
  · have hlane : m.lane? f = some (m.laneOf f x) := lane?_eq_some.2 ⟨x, hx, rfl⟩
    have haway : (m.laneOf f x).post = .away := by
      by_contra hpost
      obtain ⟨worker, hget, hon, -⟩ := worker_of_lane hlane hpost
      have hduty := hdone worker (List.mem_of_getElem? hget)
      rw [hduty] at hon
      exact hpost hon.symm
    obtain ⟨t, r, hnote⟩ := (h.ledger.left f _ hf hlane haway).resolve_left hstop
    obtain ⟨before, after, -, hw⟩ := ((h.lanes f _ hlane).judged hf).results t r hnote
    refine ⟨t, r, ?_, ?_⟩
    · obtain ⟨⟨time, flight, n⟩, hs, heq⟩ := List.mem_filterMap.1 hnote
      split at heq
      · cases heq
        exact ScheduleReport.mem_completed.2 ⟨flight, hs⟩
      · cases heq
    · rw [hw.result, ← hjob]
      rfl
  · exact ⟨time, _, ScheduleReport.mem_completed.2 ⟨none, List.mem_reverse.2 hseen⟩, rfl⟩

end Floor

/-- Looking up something for each of some jobs, if there is something for each of them. -/
theorem forall₂_filterMap {α β : Type} {P : α → β → Prop} {g : α → Option β} {l : List α}
    (h : ∀ a ∈ l, ∃ b, g a = some b ∧ P a b) : List.Forall₂ P l (l.filterMap g) := by
  induction l with
  | nil => exact .nil
  | cons a l ih =>
    obtain ⟨b, hb, hP⟩ := h a List.mem_cons_self
    rw [List.filterMap_cons, hb]
    exact .cons hP (ih fun c hc => h c (List.mem_cons_of_mem a hc))

namespace Engine

variable {e : Engine} {fl fl' : Floor σ} {jobs : List JobInstance} {s : ScheduleReport}
  {results : List JobResult}

/-- The results are those that are kept for the ids of the jobs, and there is one for each. -/
theorem resultFor_results (ho : e.Opens fl) (hrun : e.reportSchedule jobs fl = some (s, fl'))
    (hres : s.results = some results) :
    List.Forall₂ (fun i r => i ∈ jobs ∧ s.resultFor i.id = some r) jobs results := by
  obtain ⟨m, hlead, rfl, -, -, hend⟩ := ho.isOpen.exists_end hrun
  have hunder := (ho.isOpen.underway_staff jobs).leads hlead
  obtain ⟨hfinished, rfl⟩ := ScheduleReport.results_eq_some.1 hres
  obtain ⟨-, hdone, hqueue⟩ := hend hfinished
  refine forall₂_filterMap fun i hi => ?_
  obtain ⟨t, r, hr, hid⟩ := hunder.completes hdone hqueue hi
  obtain ⟨r', hr'⟩ := ScheduleReport.exists_resultFor hr
  rw [hid] at hr'
  exact ⟨r', hr', hi, hr'⟩

/-- The result at the place of a job is the one that is kept for its id. -/
theorem resultFor_of_getElem? (ho : e.Opens fl) (hrun : e.reportSchedule jobs fl = some (s, fl'))
    (hres : s.results = some results) {k : Nat} {i : JobInstance} {r : JobResult}
    (hi : jobs[k]? = some i)
    (hr : results[k]? = some r) : s.resultFor i.id = some r := by
  obtain ⟨hk, rfl⟩ := List.getElem?_eq_some_iff.1 hi
  obtain ⟨hk', rfl⟩ := List.getElem?_eq_some_iff.1 hr
  exact ((resultFor_results ho hrun hres).get hk hk').2

/-- **When a schedule finishes, each job has one result, in order.** -/
theorem settles_results (ho : e.Opens fl) (hids : (jobs.map JobInstance.id).Nodup)
    (hrun : e.reportSchedule jobs fl = some (s, fl')) (hres : s.results = some results) :
    List.Forall₂ (s.Settles e) jobs results := by
  refine (resultFor_results ho hrun hres).imp ?_
  rintro i r ⟨hi, hr⟩
  obtain ⟨m, hlead, rfl, -⟩ := ho.isOpen.exists_end hrun
  obtain ⟨t, hmem, hid⟩ := ScheduleReport.resultFor_eq_some hr
  obtain ⟨j, hj, hsettles⟩ := ((ho.isOpen.underway_staff jobs).leads hlead).settles hmem
  have hij : j = i :=
    List.inj_on_of_nodup_map hids hj hi (hsettles.jobId.symm.trans hid)
  rw [hij] at hsettles
  exact hsettles

end Engine

/-! ## Accounts -/

/-- A result belongs to a job, and accounts for all of its steps. -/
structure ScheduleReport.Accounts (e : Engine) (s : ScheduleReport) (i : JobInstance)
    (r : JobResult) : Prop where
  id : r.jobId = i.id
  templateName : r.templateName = i.templateName
  variant : r.variant = i.variant
  /-- Only a job whose unit could not be acquired has a result for that, and it comes first. Such
  a job has failed, unless it was overtaken before the acquisition failed. -/
  steps : Accounted i.steps r.steps ∨
    ∃ fault f time before after, s.ids[f]? = some i.id ∧
      s.seenOf f = before ++ (time, .completed r) :: after ∧
      Unprovisioned e i (before.map Prod.snd) r.steps fault ∧
      (r.status = .failed ∨
        ∃ cause, cause.status? = some r.status ∧ Overtaken i (before.map Prod.snd) cause)

theorem ScheduleReport.Settles.accounts {e : Engine} {s : ScheduleReport} {i : JobInstance}
    {r : JobResult} (h : s.Settles e i r) : s.Accounts e i r := by
  obtain ⟨start, time, recorded, hr⟩ := h.result
  refine ⟨h.jobId, by rw [hr]; rfl, by rw [hr]; rfl, ?_⟩
  cases h with
  | turnedAway seen result =>
    have hsteps : r.steps = skippedFrom 0 i.steps := by
      rw [result]
      exact completeSteps_nil i.steps
    rw [hsteps]
    exact .inl (accounted_skippedFrom i.steps)
  | @flown f time x before after id job seen warrant =>
    subst job
    rcases warrant.account with ha | ⟨fault, hu, hstatus⟩
    · exact .inl ha
    · exact .inr ⟨fault, f, time, before, after, id, seen, hu, hstatus⟩

/-- **Whatever units, scripts and cancellations do, a schedule that returns has one result for
each job, in order, and each accounts for all steps.** -/
theorem Engine.accounts_results {e : Engine} {fl fl' : Floor σ} {jobs : List JobInstance}
    {s : ScheduleReport} {results : List JobResult} (ho : e.Opens fl)
    (hids : (jobs.map JobInstance.id).Nodup) (hrun : e.reportSchedule jobs fl = some (s, fl'))
    (hres : s.results = some results) : List.Forall₂ (s.Accounts e) jobs results :=
  (settles_results ho hids hrun hres).imp fun _ _ => ScheduleReport.Settles.accounts

/-- A plan by which units with the image `bad` cannot be had, which for job `b` takes a while. -/
def overtakenPlan : ProvisionPlan :=
  { ProvisionPlan.smooth with
    fail := [("bad", "no such image")]
    acquireMs := [("b", 100)]
    acquireSwallow := ["b"] }

/-- Jobs of which the third cancels the run. -/
def overtakenJobs : List JobInstance :=
  [.rehearsal "a" "" (.ofInt 60) ["exit 0"], .rehearsal "b" "bad" (.ofInt 60) ["exit 0"],
   .rehearsal "c" "" (.ofInt 60) ["sleep 10; cancel", "exit 0"],
   .rehearsal "d" "" (.ofInt 60) ["exit 0"]]

/-- Four jobs: one succeeds, one gets no unit but is overtaken before, one cancels the run, and
one is turned away. Whoever is told the results takes its time, and then fails. -/
theorem Engine.accounts_results_overtaken :
    ∃ s fl' results,
      (rehearsal overtakenPlan 2).reportSchedule overtakenJobs (.telling slowReceiver) =
      some (s, fl') ∧
        s.results = some results ∧
        ⟨20000000, .error, "Completion callback failed for job c: sink down"⟩ ∈ s.log ∧
        (results.map fun r => (r.status, r.steps.map StepResult.index)) =
          [(.success, [0]), (.canceled, [-1, 0]), (.canceled, [0, 1]), (.canceled, [0])] ∧
        List.Forall₂ (s.Accounts (rehearsal overtakenPlan 2)) overtakenJobs results := by
  have hrun : ((rehearsal overtakenPlan 2).reportIn 80 overtakenJobs (.telling slowReceiver)).map
      (fun r => (r.1.results.map (List.map fun r => (r.status, r.steps.map StepResult.index)),
        decide (⟨20000000, .error, "Completion callback failed for job c: sink down"⟩ ∈
          r.1.log))) =
      some (some [(.success, [0]), (.canceled, [-1, 0]), (.canceled, [0, 1]), (.canceled, [0])],
        true) := by
    decide +kernel
  obtain ⟨⟨s, fl'⟩, hreport, hseen⟩ := Option.map_eq_some_iff.1 hrun
  obtain ⟨hstatus, hfailed⟩ := Prod.mk.inj hseen
  obtain ⟨results, hres, hstatus⟩ := Option.map_eq_some_iff.1 hstatus
  have hschedule := reportSchedule_of_reportIn rfl hreport
  exact ⟨s, fl', results, hschedule, hres, of_decide_eq_true hfailed, hstatus,
    accounts_results (opens_telling _ slowReceiver) (by decide +kernel) hschedule hres⟩

end Conveyor
