import Conveyor.Proofs.Schedule.Deadlines
import Conveyor.Proofs.Schedule.Fairness
import Conveyor.Proofs.Schedule.Greedy
import Conveyor.Proofs.Schedule.Roster

/-!
# The cancellation of a run

Once a run is canceled, no script begins any more, whoever was about to begin one. Jobs that are
still queued are turned away. A job that is in flight is interrupted, unless its timeout has come
before, or its body is over at the same time.

- `Lane.Caught`: a job that was in flight when the run was canceled.
- `Lane.Caught.passes`: **how it ends is settled by then**.
- `Floor.Heedful`: no script has begun since the run is canceled.
- `ScheduleReport.Obeys`: what the cancellation of the run means for a schedule.
- `Engine.obeys_schedule`: **every schedule heeds the cancellation of its run**.
-/

namespace Conveyor

variable {σ : Type}

/-! ## Jobs in flight when the run is canceled -/

namespace Lane

variable {e : Engine} {c : Nat} {v v' : Lane}

/-- A job was in flight when the run was canceled, at a time. -/
structure Caught (c : Nat) (v : Lane) : Prop where
  watching : v.post = .watching → v.around.now = c
  preempting : ∀ cause, v.post = .preempting cause → cause = .canceled ∨
    cause = .timedOut ∧ v.flight.overdueAt c = true ∨ cause = .failed ∧ v.around.now = c ∨
    cause = .stopped
  results : ∀ t r, (t, .completed r) ∈ v.seen → r.status = .canceled ∨
    r.status = .timedOut ∧ v.flight.overdueAt c = true ∨
    t = c ∧ (r.status = .success ∨ r.status = .failed)

/-- At the moment at which the run is canceled. -/
theorem Vigilant.caught (h : v.Vigilant) (hno : ∀ r, .completed r ∉ v.notes) :
    v.Caught v.around.now := by
  refine ⟨fun _ => rfl, fun cause hcause => ?_, fun t r hr => ?_⟩
  · have hholds := h.causes cause hcause
    cases cause with
    | canceled => exact .inl rfl
    | timedOut => exact .inr (.inl ⟨rfl, hholds⟩)
    | failed => exact .inr (.inr (.inl ⟨rfl, rfl⟩))
    | stopped => exact .inr (.inr (.inr rfl))
  · exact absurd (List.mem_map.2 ⟨_, hr, rfl⟩) (hno r)

/-- Nobody has a turn on the job that could give it a result, or call its worker. -/
theorem Caught.quiet (h : v.Caught c) (hw : v.Vigilant) (hidle : v.post = .away → v.call = .idle)
    (hp : v.Passes e v') (hnow : v'.around.now = v.around.now ∨ v.around.canceled = true)
    (hpost : v'.post = v.post)
    (hseen : ∀ t r, (t, .completed r) ∈ v'.seen → (t, .completed r) ∈ v.seen) : v'.Caught c := by
  have hsame := hp.same hidle
  have hoverdue : v'.flight.overdueAt c = v.flight.overdueAt c :=
    Flight.overdueAt_congr hsame.1 hsame.2.2 c
  refine ⟨fun hwatch => ?_, fun cause hcause => ?_, fun t r hr => ?_⟩
  · -- A worker that watches is about to learn of the cancellation, so that no time passes.
    rw [hpost] at hwatch
    rw [← h.watching hwatch]
    rcases hnow with hnow | hc
    · exact hnow
    · exact hp.now_eq hidle (hw.urgent_of_canceled hwatch hc)
  · rw [hpost] at hcause
    rw [hoverdue]
    rcases h.preempting cause hcause with hcause' | hcause' | ⟨rfl, htime⟩ | hcause'
    · exact .inl hcause'
    · exact .inr (.inl hcause')
    · have hsame := hp.now_eq hidle (hw.urgent_of_failed hcause)
      exact .inr (.inr (.inl ⟨rfl, hsame.trans htime⟩))
    · exact .inr (.inr (.inr hcause'))
  · rw [hoverdue]
    exact h.results t r (hseen t r hr)

/-- A body that its worker interrupts is interrupted for the cancellation, unless its timeout has
come or it broke. -/
theorem Caught.cause (h : v.Caught c) (hw : v.Vigilant) {past : List Note} (hs : v.Sound e past)
    (hcalled : v.call ≠ .idle) (post : v.post = .watching) {cause : Cause}
    (reason : Preempts (decide (v.call = .cut)) v.flight cause) :
    cause = .canceled ∨ cause = .timedOut ∧ v.flight.overdueAt c = true ∨
      cause = .failed ∧ v.around.now = c ∨ cause = .stopped := by
  have hc := h.watching post
  have hholds := hw.holds hs hcalled post reason
  cases cause with
  | canceled => exact .inl rfl
  | timedOut =>
    have hlate : v.flight.overdueAt v.around.now = true := hholds
    rw [hc] at hlate
    exact .inr (.inl ⟨rfl, hlate⟩)
  | failed => exact .inr (.inr (.inl ⟨rfl, hc⟩))
  | stopped => exact .inr (.inr (.inr rfl))

/-- The result of a job that was in flight when the run was canceled. -/
theorem Caught.result (h : v.Caught c) {past : List Note} (hs : v.Sound e past)
    {status : JobStatus}
    (reason : v.post = .watching ∧ v.flight.body = .ended (.done status) ∨
      ∃ cause, v.post = .preempting cause ∧ cause.status? = some status) :
    status = .canceled ∨ status = .timedOut ∧ v.flight.overdueAt c = true ∨
      v.around.now = c ∧ (status = .success ∨ status = .failed) := by
  rcases reason with ⟨post, hbody⟩ | ⟨cause, post, hstatus⟩
  · have hfinished := hs.body
    rw [hbody] at hfinished
    refine .inr (.inr ⟨h.watching post, ?_⟩)
    rcases Body.Finished.of_done hfinished with hfailed | ⟨hsuccess, -⟩
    · exact .inr hfailed
    · exact .inl hsuccess
  · rcases h.preempting cause post with rfl | ⟨rfl, hlate⟩ | ⟨rfl, htime⟩ | rfl
    · exact .inl (Option.some.inj hstatus).symm
    · exact .inr (.inl ⟨(Option.some.inj hstatus).symm, hlate⟩)
    · exact .inr (.inr ⟨htime, .inr (Option.some.inj hstatus).symm⟩)
    · cases hstatus

/-- **How a job ends that is in flight when the run is canceled is settled by then.** -/
theorem Caught.passes (h : v.Caught c) (hw : v.Vigilant) {past : List Note} (hs : v.Sound e past)
    (hp : v.Passes e v')
    (hnow : v'.around.now = v.around.now ∨ v.around.canceled = true) : v'.Caught c := by
  have hsame := hp.same hs.idle
  have hoverdue : v'.flight.overdueAt c = v.flight.overdueAt c :=
    Flight.overdueAt_congr hsame.1 hsame.2.2 c
  have hresults : ∀ t r, (t, .completed r) ∈ v.seen → r.status = .canceled ∨
      r.status = .timedOut ∧ v'.flight.overdueAt c = true ∨
      t = c ∧ (r.status = .success ∨ r.status = .failed) := by
    rw [hoverdue]
    exact h.results
  -- Only a turn of the worker changes what it waits for, or gives a result.
  rcases hp.quiet_or_turn with ⟨hpost, hseen⟩ | ⟨hne, rest, hready, rfl⟩
  · exact h.quiet hw hs.idle hp hnow hpost hseen
  · have hclock : (({ v with ready := rest } : Lane).workerTurn e).around.now = v.around.now :=
      now_turn e (v := { v with ready := rest }) hs.idle .worker
    cases served_workerTurn e (v := { v with ready := rest }) hne with
    | @preempts cause post reason next results =>
      refine ⟨fun _ => hclock.trans (h.watching post), fun cause' hcause => ?_,
        fun t r hr => hresults t r (results t r hr)⟩
      rw [next] at hcause
      obtain rfl := Post.preempting.inj hcause
      rw [hoverdue, hclock]
      exact h.cause hw hs (hw.called_of_turn hready) post reason
    | concludes reason next results =>
      refine ⟨fun hwatch => ?_, fun cause hcause => ?_, fun t r hr => ?_⟩
      · rw [next] at hwatch
        cases hwatch
      · rw [next] at hcause
        cases hcause
      · rcases results t r hr with hr | ⟨rfl, rfl⟩
        · exact hresults t r hr
        · rw [hoverdue]
          exact h.result hs reason
    | stops post next results =>
      refine ⟨fun hwatch => ?_, fun cause hcause => ?_, fun t r hr =>
        hresults t r (results t r hr)⟩
      · rw [next] at hwatch
        cases hwatch
      · rw [next] at hcause
        cases hcause

/-- The body of a job was interrupted for some cause, and there is no other for its result. -/
structure Bound (cause : Cause) (v : Lane) : Prop where
  post : v.post = .preempting cause ∨ v.post = .away
  results : ∀ t r, (t, .completed r) ∈ v.seen → cause.status? = some r.status

theorem Bound.passes {cause : Cause} (h : v.Bound cause) (hp : v.Passes e v') :
    v'.Bound cause := by
  rcases hp.quiet_or_turn with ⟨hpost, hseen⟩ | ⟨hne, rest, -, rfl⟩
  · refine ⟨?_, fun t r hr => h.results t r (hseen t r hr)⟩
    rw [hpost]
    exact h.post
  · have hpost : v.post = .preempting cause := h.post.resolve_right hne
    cases served_workerTurn e (v := { v with ready := rest }) hne with
    | preempts post reason next results =>
      rw [show v.post = .watching from post] at hpost
      cases hpost
    | @concludes status reason next results =>
      refine ⟨.inr next, fun t r hr => ?_⟩
      rcases results t r hr with hr | ⟨-, rfl⟩
      · exact h.results t r hr
      · rcases reason with ⟨post, -⟩ | ⟨cause', post, hstatus⟩
        · rw [show v.post = .watching from post] at hpost
          cases hpost
        · rw [show v.post = .preempting cause' from post] at hpost
          rw [← Post.preempting.inj hpost]
          exact hstatus
    | stops post next results => exact ⟨.inr next, fun t r hr => h.results t r (results t r hr)⟩

end Lane

/-! ## What the cancellation means for a schedule -/

/-- Has the timeout of a job come at a time, if it was taken at `start`? -/
def JobInstance.overdueAt (i : JobInstance) (start time : Nat) : Bool :=
  ((Span.ofSeconds i.timeoutSeconds).due start).any (Due.hasCome time)

/-- A job that is overdue has a timeout that has come. -/
theorem JobInstance.exists_due {i : JobInstance} (hi : i.isTimely = true) {start time : Nat}
    (h : i.overdueAt start time = true) :
    ∃ u : Int, (Span.ofSeconds i.timeoutSeconds).due start = some (.time u) ∧ u ≤ time := by
  obtain ⟨due, hdue, hcome⟩ := (Option.any_eq_true _ _).1 h
  cases due with
  | time u => exact ⟨u, hdue, of_decide_eq_true hcome⟩
  | undefined => exact absurd rfl (Span.due_ne_undefined hi hdue)

/-- The result of a job that was never started. -/
structure JobResult.NeverStarted (i : JobInstance) (r : JobResult) : Prop where
  jobId : r.jobId = i.id
  status : r.status = .canceled
  startedAt : r.startedAt = none
  steps : r.steps = skippedFrom 0 i.steps

/-- How a job ends, at a time, that was taken at `start` and in flight when the run was canceled
at `c`. -/
inductive JobInstance.CutShort (i : JobInstance) (start c : Nat) : Nat → JobStatus → Prop
  | canceled (time : Nat) : CutShort i start c time .canceled
  /-- Its timeout had come. -/
  | timedOut (time : Nat) (late : i.overdueAt start c = true) : CutShort i start c time .timedOut
  /-- Its body was over at the time at which the run was canceled. -/
  | succeeded : CutShort i start c c .success
  /-- Its body failed or broke at that time. -/
  | failed : CutShort i start c c .failed

/-- A job that was in flight is cut short. -/
theorem Lane.Caught.cutShort {c t : Nat} {v : Lane} (h : v.Caught c) {r : JobResult}
    (hr : (t, .completed r) ∈ v.seen) : v.flight.job.CutShort v.flight.takenAt c t r.status := by
  rcases h.results t r hr with hstatus | ⟨hstatus, hlate⟩ | ⟨rfl, hstatus | hstatus⟩
  · exact hstatus ▸ .canceled t
  · exact hstatus ▸ .timedOut t hlate
  · exact hstatus ▸ .succeeded
  · exact hstatus ▸ .failed

namespace ScheduleReport

/-- The run was canceled at a time, after this much was seen. -/
def CanceledAfter (s : ScheduleReport) (before : List Sighting) (c : Nat) : Prop :=
  (∀ x ∈ before, x.note ≠ .canceled) ∧
    ∃ x after, s.sightings = before ++ x :: after ∧ x.note = .canceled ∧ x.time = c

/-- What the cancellation of the run means for a schedule. The jobs are the flights from number
`first` on, and `canceled` says whether the run was canceled before. -/
structure Obeys (first : Nat) (canceled : Bool) (s : ScheduleReport) : Prop where
  /-- The flights are those of the jobs, in order. -/
  ids : ∀ k, first + k < s.ids.length → s.ids[first + k]? = (s.jobs[k]?).map JobInstance.id
  /-- Once the run is canceled, no script begins any more, of whatever flight. -/
  silent : ∀ before x after, s.sightings = before ++ x :: after → x.note.begins = true →
    canceled = false ∧ ∀ y ∈ before, y.note ≠ .canceled
  /-- In a run that was canceled before, no job is ever taken. -/
  barred : canceled = true → s.ids.length ≤ first
  /-- Nor is one that was still queued when the run was canceled. -/
  queued : canceled = false → ∀ before c, s.CanceledAfter before c → ∀ k,
    begunIn before (first + k) = false →
      s.ids.length ≤ first + k ∧ begunIn s.sightings (first + k) = false
  /-- How the jobs end that were in flight. -/
  inFlight : canceled = false → ∀ before c, s.CanceledAfter before c →
    ∀ k ∈ underway first s.jobs.length before, ∀ i, s.jobs[k]? = some i →
      ∃ start, s.startOf (first + k) = some start ∧
        ∀ t r, ⟨t, some (first + k), .completed r⟩ ∈ s.sightings → i.CutShort start c t r.status
  /-- A job is canceled only if the run was canceled before. -/
  warranted : ∀ before x after r, s.sightings = before ++ x :: after → x.note = .completed r →
    r.status = .canceled → canceled = true ∨ ∃ y ∈ before, y.note = .canceled

/-- A job whose timeout came before the run was canceled has timed out. -/
def Prompt (first : Nat) (canceled : Bool) (s : ScheduleReport) : Prop :=
  canceled = false → ∀ before c, s.CanceledAfter before c →
    ∀ k ∈ underway first s.jobs.length before, ∀ i, s.jobs[k]? = some i →
      ∀ start time, s.startOf (first + k) = some start → start ≤ time → time < c →
        i.overdueAt start time = true →
          ∀ t r, ⟨t, some (first + k), .completed r⟩ ∈ s.sightings → r.status = .timedOut

/-- In the end, all jobs of a canceled run have their results. -/
structure Settled (e : Engine) (first : Nat) (canceled : Bool) (s : ScheduleReport) : Prop where
  /-- Those that were queued were turned away. -/
  queued : ∀ k i, s.jobs[k]? = some i →
    (canceled = true ∨ ∃ before c, s.CanceledAfter before c ∧ begunIn before (first + k) =
      false) →
    (∃ time, e.refusal i time ∈ s.sightings) ∧
      ((s.jobs.map JobInstance.id).Nodup → ∃ r, s.resultFor i.id = some r ∧ r.NeverStarted i)
  /-- Those that were in flight have the result of their flight. -/
  inFlight : canceled = false → ∀ before c, s.CanceledAfter before c →
    ∀ k ∈ underway first s.jobs.length before, ∀ i, s.jobs[k]? = some i →
      (∃ t r, ⟨t, some (first + k), .completed r⟩ ∈ s.sightings) ∧
        ((s.jobs.map JobInstance.id).Nodup → ∃ t r, s.resultFor i.id = some r ∧
          ⟨t, some (first + k), .completed r⟩ ∈ s.sightings)

end ScheduleReport

theorem Engine.neverStarted_resultAt (e : Engine) (i : JobInstance) (time : Nat) :
    (e.resultAt i none time .canceled []).NeverStarted i :=
  ⟨rfl, rfl, rfl, completeSteps_nil i.steps⟩

/-! ## Scripts and results -/

/-- What was seen so far heeds the cancellation of the run; `c` says whether it was canceled
before. -/
structure Floor.Heedful (c : Bool) (fl : Floor σ) : Prop where
  heeds : Heeds c (fl.sightings.map Sighting.note)
  canceled : fl.around.canceled = canceledAfter c (fl.sightings.map Sighting.note)
  results : ∀ s ∈ fl.seen, ∀ r, s.note = .completed r → r.status = .canceled →
    fl.around.canceled = true

namespace Floor

variable {e : Engine} {fl fl' m n : Floor σ} {jobs : List JobInstance} {first : Nat} {c : Bool}

/-- A job gets the result that it is canceled only if the run is canceled already. -/
theorem Heedful.canceled_of_result (h : fl.Heedful c) (hu : fl.Underway e jobs first)
    (hm : e.Moves fl fl') {s : Sighting} (hs : s ∈ fl'.seen) {r : JobResult}
    (hr : s.note = .completed r) (hstatus : r.status = .canceled) :
    fl.around.canceled = true := by
  have ho := hu.orderly
  obtain ⟨t, flight, note⟩ := s
  obtain rfl : note = .completed r := hr
  cases flight with
  | none =>
    obtain ⟨ss, hseen, -, -, hrefused⟩ := moves_tells ho.numbered hm
    rw [hseen] at hs
    rcases List.mem_append.1 hs with hnew | hold
    · exact (hrefused _ (List.mem_reverse.1 hnew) rfl r rfl).1
    · exact h.results _ hold r rfl hstatus
  | some f =>
    obtain ⟨v', hv'⟩ := exists_lane_of_lt ((ho.moves hm).numbered.seen _ hs f rfl)
    have hnote : (t, .completed r) ∈ v'.seen := (mem_seen_lane hv').2 hs
    obtain ⟨hf, -⟩ := (hu.moves hm).jobId_of_completed hv' hnote
    rcases lane?_moves_back ho hm hv' with ⟨v, hv, hp⟩ | ⟨i, w, -, -, -, rfl⟩
    · have hold : (t, .completed r) ∈ v.seen → fl.around.canceled = true := fun hmem =>
        h.results _ ((mem_seen_lane hv).1 hmem) r rfl hstatus
      have hw := (hu.lanes f v hv).vigilant hf
      rcases hp.quiet_or_turn with ⟨-, hseen⟩ | ⟨hne, rest, -, rfl⟩
      · exact hold (hseen t r hnote)
      cases Lane.served_workerTurn e (v := { v with ready := rest }) hne with
      | preempts post reason next results => exact hold (results t r hnote)
      | @concludes status reason next results =>
        rcases results t r hnote with hmem | ⟨-, rfl⟩
        · exact hold hmem
        obtain rfl : status = .canceled := hstatus
        rw [← around_of_lane hv]
        rcases reason with ⟨-, hbody⟩ | ⟨cause, hpost, hcause⟩
        -- A body does not end as canceled: only its worker finds that.
        · have hbody' := ((hu.lanes f v hv).sound_new hf).body
          rw [show v.flight.body = .ended (.done .canceled) from hbody] at hbody'
          rcases Body.Finished.of_done hbody' with hfailed | ⟨hsuccess, -⟩
          · cases hfailed
          · cases hsuccess
        · have hholds := hw.causes cause hpost
          cases cause with
          | canceled => exact hholds
          | timedOut => cases hcause
          | failed => cases hcause
          | stopped => cases hcause
      | stops post next results => exact hold (results t r hnote)
    · rcases List.mem_singleton.1 hnote with h
      cases h

theorem Heedful.moves (h : fl.Heedful c) (hu : fl.Underway e jobs first) (hm : e.Moves fl fl') :
    fl'.Heedful c := by
  have hresults : ∀ s ∈ fl'.seen, ∀ r, s.note = .completed r → r.status = .canceled →
      fl'.around.canceled = true := fun s hs r hr hstatus =>
    canceled_moves hu.orderly.numbered hm (h.canceled_of_result hu hm hs hr hstatus)
  cases hm with
  | round ready next =>
    have hfl' := (nextRound_eq_some next).2.2
    have hseen : fl'.sightings = fl.sightings := by
      rw [hfl']
      rfl
    refine ⟨?_, ?_, hresults⟩
    · rw [hseen]
      exact h.heeds
    · rw [hseen, ← h.canceled, hfl']
  | @turn t rest ready other =>
    have hA : { fl with ready := rest }.Assigned :=
      assigned_of_same hu.orderly.numbered.assigned rfl rfl
    obtain ⟨ss, hss⟩ := tells_step e hA t
    have hseen : (e.step t { fl with ready := rest }).sightings = fl.sightings ++ ss := by
      simp [sightings, hss.seen]
    -- Scripts are begun by turns of flights only, and a body that is sound begins none once it
    -- is canceled.
    have hnew : Heeds fl.around.canceled (ss.map Sighting.note) := by
      rcases hss.scripts with ⟨f, cue, v, rfl, hv, rfl⟩ | hno
      · obtain ⟨x, hx, rfl⟩ := lane?_eq_some.1 hv
        obtain ⟨past, -, hs⟩ := (hu.lanes f _ (lane?_eq_some.2 ⟨x, hx, rfl⟩)).sound
        have hpopped : ({ fl with ready := rest }.laneOf f x).Sound e past :=
          ⟨hs.idle, hs.steps, hs.body⟩
        rw [map_note_told]
        exact (hpopped.cueTurn cue).1
      · refine heeds_of_not_begins (fun n hn => ?_) _
        obtain ⟨s, hs, rfl⟩ := List.mem_map.1 hn
        exact hno s hs
    refine ⟨?_, ?_, hresults⟩
    · rw [hseen, List.map_append, heeds_append]
      refine ⟨h.heeds, ?_⟩
      rw [← h.canceled]
      exact hnew
    · rw [hseen, List.map_append, canceledAfter_append, ← h.canceled]
      exact hss.canceled

end Floor

/-- What was seen of the cancellation before a schedule starts has happened. -/
theorem Engine.Opens.canceled_of_seen {e : Engine} {fl : Floor σ} (h : e.Opens fl) :
    ∀ s ∈ fl.seen, s.note = .canceled → fl.around.canceled = true := by
  induction h with
  | start names processes => exact fun s hs => by cases hs
  | tell h receiver memory ih => exact ih
  | plan h span act ih => exact ih
  | @disturb fl h act ih =>
    obtain ⟨g, ts, hact, -⟩ := Floor.disturb_eq act fl
    rw [hact]
    intro s hs hnote
    rcases List.mem_append.1 hs with hs | hs
    -- What an errand logs, it has done.
    · obtain ⟨n, hn, rfl⟩ := List.mem_map.1 (List.mem_reverse.1 hs)
      have hn' : Note.canceled ∈ (act.proceed fl.around).notes := hnote ▸ hn
      show (act.proceed fl.around).around.canceled = true
      rw [act.proceed_canceled_eq]
      simp [canceledAfter, hn']
    · exact act.proceed_canceled fl.around (ih s hs hnote)
  | stop h span ih => cases span <;> exact ih
  | name h names ih => exact ih
  | forget h ih => exact fun s hs => by cases hs
  | await h run ih => exact fun s hs => by cases hs
  | after h run finished ih =>
    obtain ⟨end_, -, heq⟩ := Option.map_eq_some_iff.1 run
    cases heq
    exact fun s hs => by cases hs

namespace Floor

variable {e : Engine} {fl fl' m n : Floor σ} {jobs : List JobInstance} {first : Nat} {c : Bool}

theorem Open.heedful_staff (h : fl.Open e)
    (hseen : ∀ s ∈ fl.seen, s.note = .canceled → fl.around.canceled = true)
    (jobs : List JobInstance) : (e.staff jobs fl).Heedful fl.around.canceled := by
  have hout : ∀ n ∈ fl.sightings.map Sighting.note, n.outside = true := by
    intro n hn
    obtain ⟨s, hs, rfl⟩ := List.mem_map.1 hn
    exact (h.seen s (List.mem_reverse.1 hs)).2
  refine ⟨heeds_of_not_begins (fun n hn => Note.begins_of_outside (hout n hn)) _, ?_, ?_⟩
  · show fl.around.canceled = canceledAfter fl.around.canceled (fl.sightings.map Sighting.note)
    cases hc : fl.around.canceled with
    | true => rfl
    | false =>
      have hno : Note.canceled ∉ fl.sightings.map Sighting.note := by
        intro hmem
        obtain ⟨s, hs, hnote⟩ := List.mem_map.1 hmem
        rw [hseen s (List.mem_reverse.1 hs) hnote] at hc
        cases hc
      simp [canceledAfter, hno]
  · intro s hs r hr
    have hres := (h.seen s hs).2
    rw [hr] at hres
    cases hres

theorem Heedful.leads (h : fl.Heedful c) (hu : fl.Underway e jobs first) (hl : e.Leads fl m) :
    m.Heedful c := by
  have hboth : m.Heedful c ∧ m.Underway e jobs first :=
    hl.keeps (P := fun n => n.Heedful c ∧ n.Underway e jobs first)
      (fun _ _ hn hm => ⟨hn.1.moves hn.2 hm, hn.2.moves hm⟩) ⟨h, hu⟩
  exact hboth.1

/-! ## The moment of the cancellation -/

/-- The moment at which a run is canceled: the move in which that is seen. No job is taken in
it. -/
structure Strikes (e : Engine) (before : List Sighting) (n n' : Floor σ) : Prop where
  move : e.Moves n n'
  running : n.around.canceled = false
  canceled : n'.around.canceled = true
  now : n'.now = n.now
  seen : ∃ ss, before = n.sightings ++ ss ∧ ∀ s ∈ ss, ∀ f, s.flight = some f →
    f < n.flights.length
  length : n'.flights.length = n.flights.length

theorem exists_strikes (ho : fl.Open e)
    (hseen : ∀ s ∈ fl.seen, s.note = .canceled → fl.around.canceled = true)
    (hl : e.Leads (e.staff jobs fl) m) (hrun : fl.around.canceled = false)
    {before : List Sighting}
    {c : Nat} (hc : (m.reportOf jobs).CanceledAfter before c) :
    ∃ n n', e.Leads (e.staff jobs fl) n ∧ Strikes e before n n' ∧ e.Leads n' m ∧ n.now = c := by
  obtain ⟨hfirst, x, after, hsplit, hnote, rfl⟩ := hc
  have hu := ho.underway_staff jobs
  have hheed := ho.heedful_staff hseen jobs
  rcases exists_move hu.orderly hl (x := x) hsplit with hold |
      ⟨n, n', ss, rest, hln, hm, hlm, rfl, hn', htime, hnow, hknown⟩
  · have hx : x ∈ fl.sightings := hold.mem (List.mem_append_right _ List.mem_cons_self)
    rw [hseen x (List.mem_reverse.1 hx) hnote] at hrun
    cases hrun
  -- The first cancellation that is seen comes in this move: before it the run goes on, after it
  -- no more.
  have hrunning : n.around.canceled = false := by
    rw [(hheed.leads hu hln).canceled, hrun]
    have hno : Note.canceled ∉ n.sightings.map Sighting.note := by
      intro hmem
      obtain ⟨s, hs, hs'⟩ := List.mem_map.1 hmem
      exact hfirst s (List.mem_append_left _ hs) hs'
    simp [canceledAfter, hno]
  have hcanceled : n'.around.canceled = true := by
    rw [(hheed.leads hu (hln.tail hm)).canceled, hn']
    simp [canceledAfter, hnote]
  refine ⟨n, n', hln, ⟨hm, hrunning, hcanceled, hnow, ⟨ss, rfl, hknown⟩, ?_⟩, hlm, htime.symm⟩
  -- The move that cancels takes no job.
  cases deals_moves (hu.leads hln).orderly hm with
  | keep queue length => exact length
  | take queue running length lane =>
    have haround : n.around = n'.around := around_of_lane lane
    rw [← haround, hrunning] at hcanceled
    cases hcanceled
  | drain canceled queue length refused => exact length

/-- In a canceled run, no job is taken any more. -/
theorem length_of_canceled (h : fl.Orderly) (hc : fl.around.canceled = true)
    (hl : e.Leads fl m) :
    m.flights.length = fl.flights.length := by
  induction hl with
  | refl => rfl
  | @tail n n' hln hm ih =>
    have hn := h.leads hln
    have hcn := canceled_leads h hln hc
    cases deals_moves hn hm with
    | keep queue length => exact length.trans ih
    | take queue running length lane =>
      rw [hcn] at running
      cases running
    | drain canceled queue length refused => exact length.trans ih

/-- Something was seen of every flight of a schedule. -/
theorem Dealt.begunIn_of_lt {taken f : Nat} (h : m.Dealt e jobs first taken) (hf : first ≤ f)
    (hlt : f < m.flights.length) {past : List Sighting} (hpast : m.sightings <+: past) :
    begunIn past f = true := by
  obtain ⟨v, hv⟩ := exists_lane_of_lt hlt
  obtain ⟨note, rest, hseen⟩ := h.begun f v hf hv
  have hmem : (v.flight.takenAt, note) ∈ v.seen := hseen ▸ List.mem_cons_self
  have hs := (mem_seen_lane hv).1 hmem
  exact List.any_eq_true.2 ⟨_, hpast.mem (List.mem_reverse.2 hs), decide_eq_true rfl⟩

theorem Numbered.begunIn_of_le (h : m.Numbered) {f : Nat} (hf : m.flights.length ≤ f) :
    begunIn m.sightings f = false := by
  refine List.any_eq_false.2 fun s hs hflight => ?_
  have hlt := h.seen s (List.mem_reverse.1 hs) f (of_decide_eq_true hflight)
  omega

/-- A flight that was taken is one of the jobs. -/
theorem Dealt.ids_reportOf {taken : Nat} (h : m.Dealt e jobs first taken) {k : Nat}
    (hk : first + k < (m.reportOf jobs).ids.length) :
    (m.reportOf jobs).ids[first + k]? = (jobs[k]?).map JobInstance.id := by
  have hlt : first + k < m.flights.length := by simpa [reportOf] using hk
  have hx := List.getElem?_eq_getElem hlt
  rw [h.flights k _ hx]
  show (m.flights.map fun x => x.job.id)[first + k]? = _
  rw [List.getElem?_map, hx]
  rfl

/-- **A job that is still queued when the run is canceled is never taken.** -/
theorem Strikes.queued {before : List Sighting} {n' : Floor σ} {taken k : Nat}
    (h : Strikes e before n n')
    (hn' : n'.Orderly) (hd : n.Dealt e jobs first taken) (hl : e.Leads n' m)
    (hk : begunIn before (first + k) = false) :
    m.flights.length ≤ first + k ∧ begunIn m.sightings (first + k) = false := by
  obtain ⟨ss, hbefore, -⟩ := h.seen
  have hlength : m.flights.length ≤ first + k := by
    rw [length_of_canceled hn' h.canceled hl, h.length]
    refine Nat.le_of_not_lt fun hlt => ?_
    rw [hd.begunIn_of_lt (Nat.le_add_right _ _) hlt ⟨ss, hbefore.symm⟩] at hk
    cases hk
  exact ⟨hlength, (hn'.leads hl).numbered.begunIn_of_le hlength⟩

/-- A job that is under way has a lane, and no result yet. -/
theorem Strikes.exists_lane {before : List Sighting} {n' : Floor σ} {k size : Nat}
    (h : Strikes e before n n') (hn : n.Numbered) (hk : k ∈ underway first size before) :
    ∃ v, n.lane? (first + k) = some v ∧ ∀ r, .completed r ∉ v.notes := by
  obtain ⟨-, hbegun, hno⟩ := Finset.mem_filter.1 hk
  obtain ⟨ss, hbefore, hknown⟩ := h.seen
  obtain ⟨s, hs, hflight⟩ := List.any_eq_true.1 hbegun
  have hlt : first + k < n.flights.length := by
    rw [hbefore] at hs
    rcases List.mem_append.1 hs with hs | hs
    · exact hn.seen s (List.mem_reverse.1 hs) _ (of_decide_eq_true hflight)
    · exact hknown s hs _ (of_decide_eq_true hflight)
  obtain ⟨v, hv⟩ := exists_lane_of_lt hlt
  refine ⟨v, hv, fun r hr => ?_⟩
  obtain ⟨⟨t, note⟩, hmem, rfl⟩ := List.mem_map.1 hr
  have hs := (mem_seen_lane hv).1 hmem
  have hfalse := hno _ (hbefore ▸ List.mem_append_left _ (List.mem_reverse.2 hs)) rfl
  cases hfalse

/-- **How a job ends that is in flight when the run is canceled.** -/
theorem Strikes.caught {before : List Sighting} {n' : Floor σ} {f : Nat} {v : Lane}
    (h : Strikes e before n n') (hu : n.Underway e jobs first) (hf : first ≤ f)
    (hv : n.lane? f = some v) (hno : ∀ r, .completed r ∉ v.notes) (hl : e.Leads n' m) :
    ∃ v', m.lane? f = some v' ∧ v'.Caught n.now := by
  have hfine := hu.lanes f v hv
  have hu' := hu.moves h.move
  have hcaught : v.Caught n.now := by
    have hnow : v.around.now = n.now := congrArg Surroundings.now (around_of_lane hv)
    exact hnow ▸ (hfine.vigilant hf).caught hno
  obtain ⟨v', hv', hp⟩ := lane?_moves hu.orderly.numbered h.move hv
  have hcaught' : v'.Caught n.now := by
    refine hcaught.passes (hfine.vigilant hf) (hfine.sound_new hf) hp (.inl ?_)
    rw [around_of_lane hv, around_of_lane hv']
    exact h.now
  refine hu'.lane_leads (P := Lane.Caught n.now) ?_ hv' hcaught' hl
  intro m u u' hlm hu hfine hp hcaught
  refine hcaught.passes (hfine.vigilant hf) (hfine.sound_new hf) hp (.inr ?_)
  rw [around_of_lane hu]
  exact canceled_leads hu'.orderly hlm h.canceled

/-- A job whose timeout has come before the time at which the run is canceled is not watched any
more. -/
theorem Strikes.bound {before : List Sighting} {n' : Floor σ} {f time : Nat} {k : Track}
    (h : Strikes e before n n') (hu : n.Underway e jobs first) (hf : first ≤ f)
    (hk : n.track? f = some k) (hon : k.OnTime) (hno : ∀ r, .completed r ∉ k.lane.notes)
    {u : Int}
    (hdue : k.lane.flight.timeoutDue = some (.time u)) (htaken : k.lane.flight.takenAt ≤ time)
    (hlate : u ≤ time) (htime : time < n.now) :
    k.lane.Bound .timedOut ∨ k.lane.Bound .stopped := by
  have hv := (lane_of_track? hk).1
  have hnow : k.lane.around.now = n.now := congrArg Surroundings.now (around_of_lane hv)
  have hnone : ∀ t r, (t, .completed r) ∉ k.lane.seen := fun t r hr =>
    hno r (List.mem_map.2 ⟨_, hr, rfl⟩)
  -- Whoever still watches a job has not passed its timeout, which would have called the worker.
  have hfresh : ¬(k.lane.post = .watching ∨ k.lane.post = .preempting .failed) := by
    intro hpost
    have hwithin := hon.within hpost u hdue
    omega
  cases hpost : k.lane.post with
  | away => exact .inr ⟨.inr hpost, fun t r hr => absurd hr (hnone t r)⟩
  | watching => exact absurd (.inl hpost) hfresh
  | preempting cause =>
    cases cause with
    | failed => exact absurd (.inr hpost) hfresh
    | timedOut => exact .inl ⟨.inl hpost, fun t r hr => absurd hr (hnone t r)⟩
    | stopped => exact .inr ⟨.inl hpost, fun t r hr => absurd hr (hnone t r)⟩
    | canceled =>
      have hc : k.lane.around.canceled = true :=
        ((hu.lanes f _ hv).vigilant hf).causes .canceled hpost
      rw [around_of_lane hv, h.running] at hc
      cases hc

end Floor

/-! ## Schedules and the cancellation of their runs -/

namespace Engine

open Floor

variable {e : Engine} {fl fl' m : Floor σ} {jobs : List JobInstance}

theorem startOf_reportOf {f : Nat} {v : Lane} (hv : m.lane? f = some v) (hb : v.Begun) :
    (m.reportOf jobs).startOf f = some v.flight.takenAt := by
  obtain ⟨note, rest, hseen⟩ := hb
  obtain ⟨x, -, rfl⟩ := lane?_eq_some.1 hv
  rw [ScheduleReport.startOf, seenOf_reportOf, show seenOf f m.seen = _ from hseen]
  rfl

/-- A job is canceled only if the run was canceled before. -/
theorem canceled_of_sightings (ho : e.Opens fl) (hl : e.Leads (e.staff jobs fl) m)
    {before after : List Sighting} {x : Sighting} (hsplit : m.sightings = before ++ x :: after)
    {r : JobResult} (hr : x.note = .completed r) (hstatus : r.status = .canceled) :
    fl.around.canceled = true ∨ ∃ y ∈ before, y.note = .canceled := by
  have hu := ho.isOpen.underway_staff jobs
  rcases exists_move hu.orderly hl (x := x) hsplit with hold |
      ⟨n, n', ss, rest, hln, hm, -, rfl, hn', -, -, -⟩
  -- Of a floor where the schedule begins no result was seen.
  · have hx : x ∈ fl.sightings := hold.mem (List.mem_append_right _ List.mem_cons_self)
    have hout := (ho.isOpen.seen x (List.mem_reverse.1 hx)).2
    rw [hr] at hout
    cases hout
  · have hheed := (ho.isOpen.heedful_staff ho.canceled_of_seen jobs).leads hu hln
    have hx : x ∈ n'.seen := by
      rw [← List.mem_reverse, ← Floor.sightings, hn']
      exact List.mem_append_right _ List.mem_cons_self
    have hcanceled := hheed.canceled_of_result (hu.leads hln) hm hx hr hstatus
    rw [hheed.canceled, canceledAfter, Bool.or_eq_true] at hcanceled
    rcases hcanceled with hc | hc
    · exact .inl hc
    · obtain ⟨y, hy, hnote⟩ := List.mem_map.1 (of_decide_eq_true hc)
      exact .inr ⟨y, List.mem_append_left _ hy, hnote⟩

/-- **Every schedule heeds the cancellation of its run**, at each of its moments. -/
theorem obeys_reportOf (ho : e.Opens fl) (hl : e.Leads (e.staff jobs fl) m) :
    (m.reportOf jobs).Obeys fl.flights.length fl.around.canceled := by
  have hu := ho.isOpen.underway_staff jobs
  have hheed := (ho.isOpen.heedful_staff ho.canceled_of_seen jobs).leads hu hl
  obtain ⟨taken, hd⟩ := ho.isOpen.dealt_leads hl
  have hids : (m.reportOf jobs).ids.length = m.flights.length := List.length_map _
  exact {
    ids := fun k hk => hd.ids_reportOf hk
    silent := fun before x after hsplit hbegins => by
      have hheeds := hheed.heeds
      rw [show m.sightings = _ from hsplit, List.map_append, List.map_cons] at hheeds
      obtain ⟨hrun, hno⟩ := hheeds.before_cancel hbegins
      exact ⟨hrun, fun y hy hnote => hno (List.mem_map.2 ⟨y, hy, hnote⟩)⟩
    barred := fun hc => by
      have hlength : m.flights.length = (e.staff jobs fl).flights.length :=
        length_of_canceled hu.orderly hc hl
      exact Nat.le_of_eq (hids.trans hlength)
    -- From here on, look at the floor at which the run was canceled, and at what was seen
    -- afterwards.
    queued := fun hrun before c hc k hk => by
      obtain ⟨n, n', hln, hstrikes, hlm, -⟩ :=
        exists_strikes ho.isOpen ho.canceled_of_seen hl hrun hc
      obtain ⟨taken', hdn⟩ := ho.isOpen.dealt_leads hln
      rw [hids]
      exact hstrikes.queued ((hu.leads hln).moves hstrikes.move).orderly hdn hlm hk
    inFlight := fun hrun before c hc k hk i hi => by
      obtain ⟨n, n', hln, hstrikes, hlm, rfl⟩ :=
        exists_strikes ho.isOpen ho.canceled_of_seen hl hrun hc
      have hn := hu.leads hln
      have hf := Nat.le_add_right fl.flights.length k
      obtain ⟨v, hv, hno⟩ := hstrikes.exists_lane hn.orderly.numbered hk
      obtain ⟨v', hv', hcaught⟩ := hstrikes.caught hn hf hv hno hlm
      refine ⟨v'.flight.takenAt, startOf_reportOf hv' (hd.begun _ v' hf hv'), fun t r hr => ?_⟩
      have hjob := Option.some.inj ((hd.job_of_lane hv').2.symm.trans hi)
      exact hjob ▸ hcaught.cutShort ((mem_seen_lane hv').2 (List.mem_reverse.1 hr))
    warranted := fun before x after r hsplit hr hstatus =>
      canceled_of_sightings ho hl hsplit hr hstatus }

/-- **A job whose timeout came before the run was canceled has timed out**, if no limit is
undefined. -/
theorem prompt_reportOf (ho : e.Opens fl) (hp : e.Punctual jobs fl)
    (hl : e.Leads (e.staff jobs fl) m) :
    (m.reportOf jobs).Prompt fl.flights.length fl.around.canceled := by
  intro hrun before c hc k hk i hi start time hstart htaken htime hlate t r hr
  have hu := ho.isOpen.underway_staff jobs
  obtain ⟨taken, hd⟩ := ho.isOpen.dealt_leads hl
  obtain ⟨n, n', hln, hstrikes, hlm, rfl⟩ :=
    exists_strikes ho.isOpen ho.canceled_of_seen hl hrun hc
  have hn := hu.leads hln
  have hf := Nat.le_add_right fl.flights.length k
  obtain ⟨v, hv, hno⟩ := hstrikes.exists_lane hn.orderly.numbered hk
  have hfine := hn.lanes _ v hv
  obtain ⟨v', hv', hsame⟩ := hn.lane_leads (P := fun u => v.flight.Same u.flight)
    (fun _ u u' _ _ hfine hp hsame => Flight.Same.trans hsame
      (hp.same (hfine.sound_new hf).idle)) hv
    ⟨rfl, rfl, rfl⟩ (hlm.head hstrikes.move)
  have hjob : v.flight.job = i :=
    hsame.1.symm.trans (Option.some.inj ((hd.job_of_lane hv').2.symm.trans hi))
  have hstart' : v.flight.takenAt = start := by
    rw [startOf_reportOf hv' (hd.begun _ v' hf hv')] at hstart
    exact hsame.2.2.symm.trans (Option.some.inj hstart)
  obtain ⟨u, hdue, hcome⟩ := JobInstance.exists_due (hp.jobs i (List.mem_of_getElem? hi)) hlate
  rw [← hjob, ← hstart'] at hdue
  -- When the run was canceled, the timeout had rung, so that the worker was bound to a cause
  -- already.
  have hon := (ho.isOpen.timed_leads hp hln _ _ (track?_of_lane hv)).onTime hf
  have hbound := hstrikes.bound hn hf (track?_of_lane hv) hon hno hdue (hstart' ▸ htaken)
    hcome htime
  have hkeeps : ∀ cause, v.Bound cause → cause.status? = some r.status := by
    intro cause hb
    obtain ⟨w, hw, hbw⟩ := hn.lane_leads (P := Lane.Bound cause) (fun _ _ _ _ _ _ hp hb =>
        hb.passes hp)
      hv hb (hlm.head hstrikes.move)
    exact hbw.results t r ((mem_seen_lane hw).2 (List.mem_reverse.1 hr))
  rcases hbound with hb | hb
  · exact (Option.some.inj (hkeeps .timedOut hb)).symm
  · cases hkeeps .stopped hb

/-- A job that was turned away has the result of one that was never started. -/
theorem neverStarted_of_refusal {taken first : Nat} (hd : m.Dealt e jobs first taken)
    (hu : m.Underway e jobs first) (hids : (jobs.map JobInstance.id).Nodup) {k : Nat}
    {i : JobInstance}
    (hi : jobs[k]? = some i) (hk : taken ≤ k) {time : Nat} (hs : e.refusal i time ∈ m.seen) :
    ∃ r, (m.reportOf jobs).resultFor i.id = some r ∧ r.NeverStarted i := by
  obtain ⟨r, hr⟩ := ScheduleReport.exists_resultFor (s := m.reportOf jobs)
    (ScheduleReport.mem_completed.2 ⟨none, List.mem_reverse.2 hs⟩)
  refine ⟨r, hr, ?_⟩
  rcases hd.resultFor hu hids hi hr with ⟨hlt, -⟩ | ⟨-, time', rfl⟩
  · exact absurd hlt (Nat.not_lt.2 hk)
  · exact e.neverStarted_resultAt i time'

/-- A job whose flight has its result has the result of its flight. -/
theorem resultFor_of_flown {taken first : Nat} (hd : m.Dealt e jobs first taken)
    (hu : m.Underway e jobs first) (hids : (jobs.map JobInstance.id).Nodup) {k t : Nat}
    {i : JobInstance} {r : JobResult} (hi : jobs[k]? = some i)
    (hs : ⟨t, some (first + k), .completed r⟩ ∈ m.seen) :
    ∃ t' r', (m.reportOf jobs).resultFor i.id = some r' ∧
      ⟨t', some (first + k), .completed r'⟩ ∈ m.sightings := by
  obtain ⟨k', v, hplace, hk, -, -, hjob, hid⟩ := hd.of_flown hu hs
  obtain rfl : k' = k := by omega
  obtain rfl := Option.some.inj (hjob.symm.trans hi)
  obtain ⟨r', hr'⟩ := ScheduleReport.exists_resultFor (s := m.reportOf jobs)
    (ScheduleReport.mem_completed.2 ⟨_, List.mem_reverse.2 hs⟩)
  rw [hid] at hr'
  rcases hd.resultFor hu hids hi hr' with ⟨-, t', hmem⟩ | ⟨hle, -⟩
  · exact ⟨t', r', hr', hmem⟩
  · exact absurd hk (Nat.not_lt.2 hle)

/-- **In the end, all jobs of a canceled run have their results.** -/
theorem settled_reportOf (ho : e.Opens fl) (hl : e.Leads (e.staff jobs fl) m)
    (hstop : ¬m.Stopped)
    (hdone : ∀ worker ∈ m.workers, worker.duty = .done false) (hqueue : m.queue = []) :
    (m.reportOf jobs).Settled e fl.flights.length fl.around.canceled := by
  have hu := (ho.isOpen.underway_staff jobs).leads hl
  have hobeys := obeys_reportOf ho hl
  have hids : (m.reportOf jobs).ids.length = m.flights.length := List.length_map _
  obtain ⟨taken, hd⟩ := ho.isOpen.dealt_leads hl
  have hlength := hd.length
  refine ⟨fun k i hi hcase => ?_, fun hrun before c hc k hk i hi => ?_⟩
  · -- The job was never taken, so it is among those that were turned away.
    have hle : m.flights.length ≤ fl.flights.length + k := by
      rw [← hids]
      by_cases hc : fl.around.canceled = true
      · exact Nat.le_add_right_of_le (hobeys.barred hc)
      · obtain ⟨before, c, hstruck, hbegun⟩ := hcase.resolve_left hc
        exact (hobeys.queued (Bool.eq_false_of_not_eq_true hc) before c hstruck k hbegun).1
    have htaken : taken ≤ k := by omega
    obtain ⟨time, hrefusal⟩ := hd.exists_refusal hqueue hi htaken
    exact ⟨⟨time, List.mem_reverse.2 hrefusal⟩,
      fun hnodup => neverStarted_of_refusal hd hu hnodup hi htaken hrefusal⟩
  · -- The job has a flight, whose worker is away in the end, so its result was seen.
    obtain ⟨n, n', hln, hstrikes, hlm, -⟩ :=
      exists_strikes ho.isOpen ho.canceled_of_seen hl hrun hc
    have hn := (ho.isOpen.underway_staff jobs).leads hln
    have hf := Nat.le_add_right fl.flights.length k
    obtain ⟨v, hv, -⟩ := hstrikes.exists_lane hn.orderly.numbered hk
    obtain ⟨v', hv', -⟩ := hn.lane_leads (P := fun _ => True) (fun _ _ _ _ _ _ _ _ => trivial) hv
      trivial (hlm.head hstrikes.move)
    have haway : v'.post = .away :=
      away_of_free (fun worker hw => by rw [hdone worker hw]; rfl) hv'
    obtain ⟨t, r, hr⟩ := (hu.ledger.left _ v' hf hv' haway).resolve_left hstop
    have hs := (mem_seen_lane hv').1 hr
    exact ⟨⟨t, r, List.mem_reverse.2 hs⟩, fun hnodup => resultFor_of_flown hd hu hnodup hi hs⟩

/-- **A schedule of a run that was canceled before ends**, if the receiver of results takes no
time. -/
theorem exists_schedule_of_canceled (ho : e.Opens fl) (hc : fl.around.canceled = true)
    (hprompt : fl.receiver.Prompt) (hstop : fl.Unstopped) (hfault : e.concurrencyFault? = none)
    (hjobs : jobs ≠ []) :
    ∃ s fl', e.reportSchedule jobs fl = some (s, fl') ∧ s.ending = .finished ∧
      fl'.around.canceled = true := by
  have hu := ho.isOpen.underway_staff jobs
  have hclosing : (e.staff jobs fl).Closing (min e.maxConcurrency.toNat jobs.length) :=
    ⟨hu.orderly, eager_staff e jobs fl, brisk_staff e jobs hprompt, .inl hc,
      fun worker hw => by rw [List.eq_of_mem_replicate hw]; rfl⟩
  obtain ⟨m, rest, hl, hr⟩ := hclosing.ends (e := e) (crew_pos hfault hjobs)
  have hcalm : m.Calm := (calm_staff e jobs hstop).leads hclosing hl
  have hadvance : e.advance Turn.isScheduler (e.staff jobs fl) = some { m with ready := rest } :=
    (e.advance_of_leads hl).trans (e.advance_scheduler hr)
  have hempty : jobs.isEmpty = false := by simpa using hjobs
  refine ⟨m.reportOf jobs, { m with ready := rest }.forget, ?_, hcalm.endOf, ?_⟩
  · unfold reportSchedule schedule
    rw [hempty, if_neg Bool.false_ne_true, hadvance]
    rfl
  · show m.around.canceled = true
    exact canceled_leads hu.orderly hl hc

/-- **In a run that was canceled before, no job is started.** -/
theorem neverStarted_results {s : ScheduleReport} (ho : e.Opens fl)
    (hc : fl.around.canceled = true)
    (hids : (jobs.map JobInstance.id).Nodup) (hrun : e.reportSchedule jobs fl = some (s, fl'))
    (hfinished : s.ending = .finished) :
    ∃ results, s.results = some results ∧ List.Forall₂ (fun i r => r.NeverStarted i) jobs
    results := by
  obtain ⟨m, hl, rfl, -, -, hend⟩ := ho.isOpen.exists_end hrun
  obtain ⟨hstop, hdone, hqueue⟩ := hend hfinished
  have hsettled := settled_reportOf ho hl hstop hdone hqueue
  refine ⟨jobs.filterMap fun i => (m.reportOf jobs).resultFor i.id, ?_,
    forall₂_filterMap fun i hi => ?_⟩
  · rw [ScheduleReport.results, hfinished]
    rfl
  · obtain ⟨k, hk⟩ := List.mem_iff_getElem?.1 hi
    exact (hsettled.queued k i hk (.inl hc)).2 hids

end Engine

end Conveyor
