import Conveyor.Proofs.Schedule.Cancellation
import Conveyor.Proofs.Schedule.Timesheet

/-!
# The time that jobs and schedules take

A job takes at least the time of its steps, and at most the time up to its timeout and then the
patience of its worker. After the run is canceled, the schedule takes no longer than that
patience. Limits that are not positive count as none at all.

- `JobResult.Spans`, `JobResult.Kept`: the result of a job that took its time, and kept its
  limits.
- `Floor.Open.spans_of_seen`, `Floor.Open.kept_of_seen`: **every job that was started does so**.
- `Floor.Expiring`: a schedule of a canceled run; `Floor.Expiring.moves`.
- `Floor.Open.now_le_of_canceled`: **how long a schedule goes on after the run is canceled**.
-/

namespace Conveyor

variable {σ : Type}

/-- The result of a job that was taken at `start` and had its result at `time`. -/
structure JobResult.Spans (e : Engine) (start time : Nat) (r : JobResult) : Prop where
  startedAt : r.startedAt = some (e.stampAt start)
  finishedAt : r.finishedAt = e.stampAt time
  /-- The steps took no longer than the job. -/
  steps : start + nanosPerMilli * spentMs r.steps ≤ time

/-- The job kept its limits. -/
structure JobResult.Kept (e : Engine) (i : JobInstance) (start time : Nat) (r : JobResult) : Prop
    extends r.Spans e start time where
  /-- The job took no longer than until its timeout, and then no longer than its worker
  waited. -/
  bound : ∀ limit patience, Span.ofSeconds i.timeoutSeconds = .finite limit →
    e.patience = .finite patience → (time : Int) ≤ start + max 0 limit + max 0 patience
  /-- A job that timed out took at least that long. -/
  late : r.status = .timedOut → ∃ limit, Span.ofSeconds i.timeoutSeconds = .finite limit ∧
    start + limit ≤ time

namespace Floor

variable {e : Engine} {fl fl' m n : Floor σ} {jobs : List JobInstance} {first size c : Nat}

/-- What is seen of the flights of a schedule is seen while it runs. -/
theorem Open.time_of_seen (ho : fl.Open e) (hl : e.Leads (e.staff jobs fl) m) {s : Sighting}
    (hs : s ∈ m.seen) {f : Nat} (hf : s.flight = some f) : fl.now ≤ s.time ∧ s.time ≤ m.now := by
  have hu := ho.underway_staff jobs
  obtain ⟨before, after, hsplit⟩ := List.append_of_mem (List.mem_reverse.2 hs)
  rcases exists_move hu.orderly hl (x := s) hsplit with hold |
      ⟨n, n', ss, rest, hln, hm, hlm, -, -, htime, hnow, -⟩
  · have hmem : s ∈ fl.sightings := hold.mem (List.mem_append_right _ List.mem_cons_self)
    rw [(ho.seen s (List.mem_reverse.1 hmem)).1] at hf
    cases hf
  · have hstart : (e.staff jobs fl).now ≤ n.now := now_le_leads hu.orderly hln
    have hend : n'.now ≤ m.now := now_le_leads ((hu.leads hln).moves hm).orderly hlm
    rw [htime]
    exact ⟨hstart, hnow ▸ hend⟩

/-- A result is that of a job that was never started, or it was seen of a flight. -/
theorem Open.started_or_seen (ho : fl.Open e) (hl : e.Leads (e.staff jobs fl) m) {t : Nat}
    {r : JobResult} (hr : (t, r) ∈ (m.reportOf jobs).completed) :
    r.startedAt = none ∨ ∃ f, ⟨t, some f, .completed r⟩ ∈ m.seen := by
  obtain ⟨flight, hmem⟩ := ScheduleReport.mem_completed.1 hr
  have hs : ⟨t, flight, .completed r⟩ ∈ m.seen := List.mem_reverse.1 hmem
  cases flight with
  | some f => exact .inr ⟨f, hs⟩
  | none =>
    left
    obtain ⟨i, -, hresult⟩ := ((ho.underway_staff jobs).leads hl).ledger.refused _ hs rfl r rfl
    rw [hresult]
    rfl

/-- **Every job that was started takes at least the time of its steps.** -/
theorem Open.spans_of_seen (ho : fl.Open e) (hl : e.Leads (e.staff jobs fl) m) {f t : Nat}
    {r : JobResult} (hs : ⟨t, some f, .completed r⟩ ∈ m.seen) :
    ∃ v k, m.lane? f = some v ∧ (t, .completed r) ∈ v.seen ∧ f = fl.flights.length + k ∧
      jobs[k]? = some v.flight.job ∧ r.jobId = v.flight.job.id ∧
      (m.reportOf jobs).startOf f = some v.flight.takenAt ∧ fl.now ≤ v.flight.takenAt ∧
      t ≤ m.now ∧
      r.Spans e v.flight.takenAt t := by
  have hu := (ho.underway_staff jobs).leads hl
  obtain ⟨taken, hd⟩ := ho.dealt_leads hl
  obtain ⟨k, v, rfl, -, hv, hr, hjob, hid⟩ := hd.of_flown hu hs
  have hf : fl.flights.length ≤ fl.flights.length + k := Nat.le_add_right _ _
  have hbegun := hd.begun _ v hf hv
  have hstarted : fl.now ≤ v.flight.takenAt := by
    obtain ⟨note, rest, hseen⟩ := hbegun
    have hfirst : (v.flight.takenAt, note) ∈ v.seen := hseen ▸ List.mem_cons_self
    exact (ho.time_of_seen hl ((mem_seen_lane hv).1 hfirst) rfl).1
  obtain ⟨before, after, -, hw⟩ := ((hu.lanes _ v hv).judged hf).results t r hr
  have hresult := hw.result
  refine ⟨v, k, hv, hr, rfl, hjob, hid, Engine.startOf_reportOf hv hbegun, hstarted,
    (ho.time_of_seen hl hs rfl).2, ?_, ?_, (ho.clocked_leads hl hf hv).results t r hr⟩
  · rw [hresult]
    rfl
  · rw [hresult]
    rfl

/-- **Every job that was started keeps its limits.** -/
theorem Open.kept_of_seen (ho : fl.Open e) (hp : e.Punctual jobs fl)
    (hl : e.Leads (e.staff jobs fl) m) {f t : Nat} {r : JobResult}
    (hs : ⟨t, some f, .completed r⟩ ∈ m.seen) :
    ∃ k i start, f = fl.flights.length + k ∧ jobs[k]? = some i ∧ r.jobId = i.id ∧
      (m.reportOf jobs).startOf f = some start ∧ r.Kept e i start t := by
  have hu := (ho.underway_staff jobs).leads hl
  obtain ⟨v, k, hv, hr, hplace, hjob, hid, hstart, -, -, hspans⟩ := ho.spans_of_seen hl hs
  have hf : fl.flights.length ≤ f := by omega
  obtain ⟨before, after, -, hw⟩ := ((hu.lanes f v hv).judged hf).results t r hr
  refine ⟨k, v.flight.job, v.flight.takenAt, hplace, hjob, hid, hstart, hspans,
    fun limit patience hlimit hpatience => ?_, fun hstatus => ?_⟩
  · obtain ⟨p, hwithin, -, hbound⟩ :=
      ((ho.timed_leads hp hl f _ (track?_of_lane hv)).relieved hf).results t r hr
    have hwatch : (p : Int) ≤ max (v.flight.takenAt : Int) (v.flight.takenAt + limit) :=
      hwithin _ (by rw [Flight.timeoutDue, hlimit]; rfl)
    have hwait := hbound patience hpatience
    omega
  · have htimely := hp.jobs _ (List.mem_of_getElem? hjob)
    obtain ⟨u, hdue, hcome⟩ := JobInstance.exists_due htimely (hw.late hstatus)
    cases hspan : Span.ofSeconds v.flight.job.timeoutSeconds with
    | finite limit =>
      rw [hspan] at hdue
      cases hdue
      exact ⟨limit, rfl, hcome⟩
    | endless =>
      rw [hspan] at hdue
      cases hdue
    | undefined =>
      rw [hspan] at hdue
      cases hdue

/-! ## After the run is canceled -/

/-- The run was canceled at a time. Bodies are interrupted by then, and waited for no longer than
the patience of their workers. -/
structure Expiring (e : Engine) (jobs : List JobInstance) (first size c : Nat) (fl : Floor σ) :
    Prop where
  underway : fl.Underway e jobs first
  inTime : fl.InTime
  eager : fl.Eager size
  brisk : fl.Brisk
  canceled : fl.around.canceled = true
  watching : ∀ f v, first ≤ f → fl.lane? f = some v → v.post = .watching → v.around.now = c
  relieved : ∀ f k, first ≤ f → fl.track? f = some k → k.Relieved e fun p => p ≤ c
  now : ∀ q, e.patience = .finite q → (fl.now : Int) ≤ c + max 0 q

/-- Some worker waits for an interrupted body whenever nobody is to have a turn. -/
theorem Expiring.waits (h : fl.Expiring e jobs first size c) (hsize : 0 < size)
    (hquiet : fl.pending = []) :
    ∃ f v cause, first ≤ f ∧ fl.lane? f = some v ∧ v.post = .preempting cause := by
  have ho := h.underway.orderly
  obtain ⟨worker, hmem, hbusy⟩ : ∃ worker ∈ fl.workers, worker.duty.flight? ≠ none := by
    by_contra hnone
    have hfree : ∀ worker ∈ fl.workers, worker.duty.flight? = none := by
      intro worker hw
      by_contra hne
      exact hnone ⟨worker, hw, hne⟩
    obtain ⟨t, ht, -⟩ := Closing.next ⟨ho, h.eager, h.brisk, .inl h.canceled, hfree⟩ hsize
    rw [hquiet] at ht
    cases ht
  obtain ⟨f, hf⟩ := Option.ne_none_iff_exists'.1 hbusy
  obtain ⟨w, hget⟩ := List.mem_iff_getElem?.1 hmem
  obtain ⟨v, hv, -, hpost, -⟩ :=
    lane?_of_duty ho.numbered.assigned hget (Duty.postOn_ne_away.2 hf)
  have hp : v.post ≠ .away := by
    rw [hpost]
    exact Duty.postOn_ne_away.2 hf
  have hfine := h.underway.lanes f v hv
  have hle : first ≤ f := Nat.le_of_not_lt fun hlt => hp (hfine.old hlt).1
  refine ⟨f, v, ?_⟩
  cases hcase : v.post with
  | away => exact absurd hcase hp
  | preempting cause => exact ⟨cause, hle, hv, rfl⟩
  | watching =>
    -- A worker that watches learns of the cancellation at once.
    have hc : v.around.canceled = true := by
      rw [around_of_lane hv]
      exact h.canceled
    refine absurd ?_ ((hfine.vigilant hle).urgent_of_canceled hcase hc)
    obtain ⟨x, -, rfl⟩ := lane?_eq_some.1 hv
    obtain ⟨hready, hlater⟩ := List.append_eq_nil_iff.1 hquiet
    simp [Lane.items, laneOf, hready, hlater]

/-- Whoever watches after a move watched before, and learns of the cancellation before time
passes. -/
theorem Expiring.watching_moves (h : fl.Expiring e jobs first size c) (hm : e.Moves fl fl')
    {f : Nat}
    {v' : Lane} (hf : first ≤ f) (hv' : fl'.lane? f = some v') (hpost : v'.post = .watching) :
    v'.around.now = c := by
  rcases lane?_moves_back h.underway.orderly hm hv' with ⟨v, hv, hp⟩ | ⟨i, w, -, -, hrun, -⟩
  · have hc : v.around.canceled = true := by
      rw [around_of_lane hv]
      exact h.canceled
    have hpost₀ := hp.watching hpost
    have hurgent := ((h.underway.lanes f v hv).vigilant hf).urgent_of_canceled hpost₀ hc
    exact (hp.now_eq (call_of_away hv) hurgent).trans (h.watching f v hf hv hpost₀)
  · rw [h.canceled] at hrun
    cases hrun

theorem Expiring.relieved_moves (h : fl.Expiring e jobs first size c) (he : e.Timely)
    (hm : e.Moves fl fl') {f : Nat} {k' : Track} (hf : first ≤ f) (hk' : fl'.track? f =
        some k') :
    k'.Relieved e fun p => p ≤ c := by
  rcases track?_moves_back he h.underway.orderly h.inTime hm hk' with
    ⟨k, hk, hp, hp'⟩ | ⟨i, w, -, -, hrun, -⟩
  · have hv := (lane_of_track? hk).1
    refine (h.relieved f k hf hk).passes ((h.underway.lanes f _ hv).vigilant hf)
        (call_of_away hv) hp
      hp' fun hpost => ?_
    exact Nat.le_of_eq (h.watching_moves hm hf (lane_of_track? hk').1 hpost)
  · rw [h.canceled] at hrun
    cases hrun

/-- When time passes, some worker goes on waiting for an interrupted body. -/
theorem Expiring.waits_on (h : fl.Expiring e jobs first size c) (he : e.Timely)
    (hsize : 0 < size)
    (hm : e.Moves fl fl') (hlt : fl.now < fl'.now) :
    ∃ f k' cause, first ≤ f ∧ fl'.track? f = some k' ∧ k'.lane.post = .preempting cause := by
  have hn := h.underway.orderly.numbered
  have hquiet := (quiet_of_lt hn hm hlt).1
  obtain ⟨f, v, cause, hf, hv, hpost⟩ := h.waits hsize hquiet
  obtain ⟨k', hk', -, hp⟩ := track?_moves he hn h.inTime.timers hm (track?_of_lane hv)
  refine ⟨f, k', cause, hf, hk', ?_⟩
  rcases hp.quiet_or_turn with ⟨hsame, -⟩ | ⟨-, rest, hready, -⟩
  · exact hsame.trans hpost
  · -- Nobody has a turn on any job.
    obtain ⟨x, -, rfl⟩ := lane?_eq_some.1 hv
    have hnone : (fl.laneOf f x).ready = [] := by
      simp [laneOf, (List.append_eq_nil_iff.1 hquiet).1]
    rw [show (fl.laneOf f x).ready = _ from hready] at hnone
    cases hnone

/-- **No schedule goes on beyond the patience of its workers once its run is canceled.** -/
theorem Expiring.moves (h : fl.Expiring e jobs first size c) (he : e.Timely) (hsize : 0 < size)
    (hm : e.Moves fl fl') : fl'.Expiring e jobs first size c := by
  have ho := h.underway.orderly
  refine ⟨h.underway.moves hm, h.inTime.moves he ho hm, h.eager.moves ho.numbered hm,
    h.brisk.moves ho.numbered hm, canceled_moves ho.numbered hm h.canceled,
    fun f v' hf hv' hpost => h.watching_moves hm hf hv' hpost, fun f k' hf hk' =>
      h.relieved_moves he hm hf hk', fun q hq => ?_⟩
  rcases (now_le_moves ho.numbered hm).eq_or_lt with hnow | hlt
  · rw [← hnow]
    exact h.now q hq
  -- The worker that goes on waiting came to wait by the time of the cancellation.
  obtain ⟨f, k', cause, hf, hk', hpost⟩ := h.waits_on he hsize hm hlt
  obtain ⟨p, hpc, -, hbound⟩ := (h.relieved_moves he hm hf hk').preempting cause hpost
  have hle := (hbound q hq).1
  rw [show k'.lane.around = fl'.around from around_of_lane (lane_of_track? hk').1] at hle
  show (fl'.around.now : Int) ≤ _
  omega

/-- **How long a schedule goes on after its run is canceled**, if the receiver of results takes
no time. -/
theorem Open.now_le_of_canceled (ho : fl.Open e)
    (hseen : ∀ s ∈ fl.seen, s.note = .canceled → fl.around.canceled = true)
    (hprompt : fl.receiver.Prompt) (hp : e.Punctual jobs fl)
    (hsize : 0 < min e.maxConcurrency.toNat jobs.length) (hl : e.Leads (e.staff jobs fl) m)
    (hrun : fl.around.canceled = false) {before : List Sighting} {c : Nat}
    (hc : (m.reportOf jobs).CanceledAfter before c) {q : Int} (hq : e.patience = .finite q) :
    (m.now : Int) ≤ c + max 0 q := by
  obtain ⟨n, n', hln, hstrikes, hlm, rfl⟩ := exists_strikes ho hseen hl hrun hc
  have hln' := hln.tail hstrikes.move
  have hu := ho.underway_staff jobs
  have hstart : n'.Expiring e jobs fl.flights.length (min e.maxConcurrency.toNat jobs.length)
      n.now := by
    refine ⟨hu.leads hln', hp.inTime.leads hp.limits hu.orderly hln', ?_, ?_, hstrikes.canceled,
      fun f v _ hv _ => ?_, fun f k hf hk => ?_, fun q _ => ?_⟩
    · exact (eager_staff e jobs fl).leads hu.orderly hln'
    · exact (brisk_staff e jobs hprompt).leads hu.orderly hln'
    · rw [around_of_lane hv]
      exact hstrikes.now
    · have hv := (lane_of_track? hk).1
      have hnow : k.lane.around.now = n.now := by
        rw [around_of_lane hv]
        exact hstrikes.now
      have htimed := (ho.timed_leads hp hln' f k hk).relieved hf
      refine ⟨fun _ => Nat.le_of_eq hnow, fun cause hcause => ?_, fun t r hr => ?_⟩
      · obtain ⟨p, -, hle, hrest⟩ := htimed.preempting cause hcause
        exact ⟨p, hnow ▸ hle, hle, hrest⟩
      · obtain ⟨p, -, hle, hrest⟩ := htimed.results t r hr
        have hpast := (ho.time_of_seen hln' ((mem_seen_lane hv).1 hr) rfl).2
        exact ⟨p, Nat.le_trans hle (hstrikes.now ▸ hpast), hle, hrest⟩
    · have hnow := hstrikes.now
      omega
  have hend := hlm.keeps (fun _ _ h hm => Expiring.moves h hp.limits hsize hm) hstart
  exact hend.now q hq

end Floor

end Conveyor
