import Conveyor.Proofs.Schedule.Ledger
import Conveyor.Schedule.View

/-!
# From the opening of a schedule to its end

A schedule starts on a floor on which others may have run before: their flights may still be
there, and errands may be planned, but nobody is called who belongs to a crew. From there on,
everything that was shown for single moves holds.

- `Floor.Open`: what holds on a floor on which a schedule can be started.
- `Floor.Underway`: what holds at every moment of a schedule: `Floor.Open.underway_staff` at its
  start, `Floor.Underway.moves` from each to the next.
- `Floor.Open.lanes_leads`: what all moves keep of a job holds of all jobs.
- `Floor.Staffed.finished_all`: **when a schedule is finished, all workers are done.**
- `Engine.reportSchedule_eq_some`, `Floor.Open.exists_end`: a schedule that is over, as a run of
  moves.
-/

namespace Conveyor

variable {σ : Type}

/-- A turn of the crew of a schedule. -/
def Turn.ofCrew : Turn → Bool
  | .worker _ | .workerDone _ | .scheduler => true
  | _ => false

/-- Nobody is called who belongs to a crew, and nothing was seen but what somebody outside
does. -/
structure Floor.Open (e : Engine) (fl : Floor σ) : Prop where
  turns : ∀ f c, .flight f c ∈ fl.pending → f < fl.flights.length
  timers : ∀ t ∈ fl.timers, ∀ f b, t.alarm = .flight f b →
    ∃ x, fl.flights[f]? = some x ∧ (b = .timeout → x.timeoutDue = some t.due)
  crewless : ∀ t ∈ fl.pending, t.ofCrew = false
  sound : ∀ (f : Nat) (x : Flight), fl.flights[f]? = some x → ∃ past,
    x.steps = recordedAmong past ∧ x.body.Sound e x.job fl.around.canceled past
  seen : ∀ s ∈ fl.seen, s.flight = none ∧ s.note.outside = true

/-- What holds in the lane of flight `f`. Flights below number `first` are of earlier schedules:
they have no worker, and get no results. -/
structure Lane.Fine (e : Engine) (first f : Nat) (v : Lane) : Prop where
  sound : ∃ past, (first ≤ f → past = []) ∧ v.Sound e past
  vigilant : first ≤ f → v.Vigilant
  judged : first ≤ f → v.Judged e
  old : f < first → v.post = .away ∧ ∀ r, .completed r ∉ v.notes

/-- What holds at every moment of a schedule. -/
structure Floor.Underway (e : Engine) (jobs : List JobInstance) (first : Nat) (fl : Floor σ) :
    Prop where
  orderly : fl.Orderly
  ledger : Ledger e jobs first fl
  lanes : fl.Lanes (Lane.Fine e first)

namespace Lane

variable {e : Engine} {first f : Nat} {v v' : Lane}

theorem Fine.sound_new (h : v.Fine e first f) (hf : first ≤ f) : v.Sound e [] := by
  obtain ⟨past, hpast, hs⟩ := h.sound
  rw [← hpast hf]
  exact hs

/-- A flight without a worker gets no results. -/
theorem old_passes (hp : v.Passes e v') (h : v.post = .away ∧ ∀ r, .completed r ∉ v.notes) :
    v'.post = .away ∧ ∀ r, .completed r ∉ v'.notes := by
  obtain ⟨hpost, hno⟩ := h
  cases hp with
  | @own i rest ready =>
    cases i with
    | cue c =>
      obtain ⟨hstay, hres, -⟩ := e.stays_cueTurn (d := v.desk) rfl rfl c
      refine ⟨?_, fun r hmem => ?_⟩
      · show (Lane.put (e.cueTurn c v.desk) { v with ready := rest }).post = .away
        rw [put_eq]
        exact hstay.trans hpost
      · have hmem' : .completed r ∈
            (Lane.put (e.cueTurn c v.desk) { v with ready := rest }).notes := hmem
        rw [notes_put] at hmem'
        rcases List.mem_append.1 hmem' with hmem' | hmem'
        · exact hno r hmem'
        · exact hres r hmem'
    | worker =>
      show ({ v with ready := rest }.workerTurn e).post = .away ∧
        ∀ r, .completed r ∉ ({ v with ready := rest }.workerTurn e).notes
      rw [workerTurn_away e (v := { v with ready := rest }) hpost]
      exact ⟨hpost, hno⟩
  | other now canceled =>
    rw [moveTo_eq]
    exact ⟨hpost, hno⟩
  | cut =>
    rw [cut_of_away hpost]
    exact ⟨hpost, hno⟩
  | round ready now later timeout => exact ⟨hpost, hno⟩

theorem Fine.passes (h : v.Fine e first f) (hp : v.Passes e v') : v'.Fine e first f := by
  obtain ⟨past, hpast, hs⟩ := h.sound
  exact ⟨⟨past, hpast, hs.passes hp⟩, fun hf => (h.vigilant hf).passes hs hp,
    fun hf => (h.judged hf).passes (h.vigilant hf) (h.sound_new hf) hp,
    fun hf => old_passes hp (h.old hf)⟩

theorem fine_launched (e : Engine) (hf : first ≤ f) (i : JobInstance) (w : Nat)
    (s : Surroundings) :
    (launched i w s).Fine e first f :=
  ⟨⟨[], fun _ => rfl, sound_launched e i w s⟩, fun _ => vigilant_launched i w s,
    fun _ => judged_launched e i w s, fun hlt => absurd hf (Nat.not_le.2 hlt)⟩

end Lane

namespace Floor

variable {e : Engine} {fl fl' : Floor σ} {jobs : List JobInstance} {first : Nat}

/-! ## Staffing -/

theorem standingAmong_replicate (n f w : Nat) (call : Call) :
    standingAmong (List.replicate n (⟨.fresh, call⟩ : Worker σ)) f w = (.away, .idle) := by
  unfold standingAmong
  rw [List.getElem?_replicate]
  split <;> rfl

theorem pending_staff (e : Engine) (jobs : List JobInstance) (fl : Floor σ) :
    (e.staff jobs fl).pending =
      fl.pending ++ (List.range (min e.maxConcurrency.toNat jobs.length)).map .worker := by
  simp [Engine.staff, pending]

theorem countP_crewless {p : Turn → Bool} (hp : ∀ t, p t = true → t.ofCrew = true)
    (h : ∀ t ∈ fl.pending, t.ofCrew = false) : fl.pending.countP p = 0 := by
  rw [List.countP_eq_zero]
  intro t ht hpt
  have hcrew := hp t hpt
  rw [h t ht] at hcrew
  cases hcrew

theorem countP_range_worker (n w : Nat) :
    ((List.range n).map Turn.worker).countP (Turn.isWorker w) = if w < n then 1 else 0 := by
  induction n with
  | zero => rfl
  | succ n ih =>
    rw [List.range_succ, List.map_append, List.countP_append, ih]
    by_cases hw : n = w
    · subst hw
      simp [Turn.isWorker]
    · have hlt : w < n + 1 ↔ w < n := by omega
      simp [Turn.isWorker, hw, hlt]

/-- The turns of the crew when a schedule starts: every worker has one, and nobody else. -/
theorem Open.countP_staff (h : fl.Open e) (jobs : List JobInstance) {p : Turn → Bool}
    (hp : ∀ t, p t = true → t.ofCrew = true) : (e.staff jobs fl).pending.countP p =
      ((List.range (min e.maxConcurrency.toNat jobs.length)).map Turn.worker).countP p := by
  rw [pending_staff, List.countP_append, countP_crewless hp h.crewless, Nat.zero_add]

theorem Open.calls_staff (h : fl.Open e) (jobs : List JobInstance) (w : Nat) :
    (e.staff jobs fl).calls w = if w < min e.maxConcurrency.toNat jobs.length then 1 else 0 := by
  rw [calls, h.countP_staff jobs, countP_range_worker]
  intro t ht
  cases t <;> first | rfl | cases ht

theorem Open.reports_staff (h : fl.Open e) (jobs : List JobInstance) :
    (e.staff jobs fl).reports = 0 := by
  rw [reports, h.countP_staff jobs, List.countP_eq_zero]
  · intro t ht
    obtain ⟨w, -, rfl⟩ := List.mem_map.1 ht
    simp [Turn.isWorkerDone]
  · intro t ht
    cases t <;> first | rfl | cases ht

theorem Open.summons_staff (h : fl.Open e) (jobs : List JobInstance) :
    (e.staff jobs fl).summons = 0 := by
  rw [summons, h.countP_staff jobs, List.countP_eq_zero]
  · intro t ht
    obtain ⟨w, -, rfl⟩ := List.mem_map.1 ht
    simp [Turn.isScheduler]
  · intro t ht
    cases t <;> first | rfl | cases ht

/-- Nobody is at work on a flight when a schedule starts. -/
theorem Open.numbered_staff (h : fl.Open e) (jobs : List JobInstance) :
    (e.staff jobs fl).Numbered := by
  refine
    { assigned := fun f w hw => ?_
      turns := fun f c hmem => ?_
      timers := h.timers
      seen := fun s hs f hf => ?_ }
  · have haway : standingAmong (e.staff jobs fl).workers f w = (.away, .idle) :=
      standingAmong_replicate _ _ _ _
    rw [haway] at hw
    exact absurd rfl hw
  · rw [pending_staff] at hmem
    rcases List.mem_append.1 hmem with hmem | hmem
    · exact h.turns f c hmem
    · obtain ⟨w, -, hw⟩ := List.mem_map.1 hmem
      cases hw
  · rw [(h.seen s hs).1] at hf
    cases hf

/-- A crew that has just been called waits for its first turns. -/
theorem Open.staffed_staff (h : fl.Open e) (jobs : List JobInstance) :
    (e.staff jobs fl).Staffed := by
  have hfresh : ∀ worker ∈ (e.staff jobs fl).workers, worker = ⟨.fresh, .called⟩ :=
    fun worker => List.eq_of_mem_replicate
  have hlength : (e.staff jobs fl).workers.length = min e.maxConcurrency.toNat jobs.length :=
    List.length_replicate
  refine
    { called := fun w worker hw => ?_
      known := fun w hw => ?_
      rested := fun worker hw hd => ?_
      counted := ?_
      finished := fun hc => absurd rfl hc
      reported := fun hlen hpos => ?_
      summoned := h.summons_staff jobs
      drained := ?_ }
  · have hlt := (List.getElem?_eq_some_iff.1 hw).1
    rw [hlength] at hlt
    rw [h.calls_staff, if_pos hlt, hfresh worker (List.mem_of_getElem? hw)]
    rfl
  · rw [hlength] at hw
    rw [h.calls_staff, if_neg (Nat.not_lt.2 hw)]
  · rw [hfresh worker hw] at hd
    cases hd
  · have hdone : (e.staff jobs fl).doneWorkers = 0 := by
      rw [doneWorkers, List.countP_eq_zero]
      intro worker hw
      rw [hfresh worker hw]
      exact fun hd => by cases hd
    rw [h.reports_staff, hdone]
    rfl
  · rw [← hlen] at hpos
    exact absurd hpos (Nat.lt_irrefl 0)
  · rintro ⟨worker, hw, hd⟩
    rw [hfresh worker hw] at hd
    cases hd

/-- A crew that has just been called is in order. -/
theorem Open.orderly_staff (h : fl.Open e) (jobs : List JobInstance) :
    (e.staff jobs fl).Orderly :=
  ⟨h.numbered_staff jobs, h.staffed_staff jobs⟩

/-- **What holds when a schedule starts.** -/
theorem Open.underway_staff (h : fl.Open e) (jobs : List JobInstance) :
    (e.staff jobs fl).Underway e jobs fl.flights.length := by
  have hseen : ∀ f, seenOf f fl.seen = [] := by
    intro f
    unfold seenOf
    rw [List.filterMap_eq_nil_iff]
    intro s hs
    rw [(h.seen s (List.mem_reverse.1 hs)).1]
    rfl
  have hlt : ∀ (f : Nat) (x : Flight), fl.flights[f]? = some x → f < fl.flights.length :=
    fun f x hx => (List.getElem?_eq_some_iff.1 hx).1
  refine ⟨h.orderly_staff jobs, ⟨fun _ => id, ?_, fun _ => .inl, ?_, ?_, Nat.le_refl _⟩, ?_⟩
  · intro f x hf hx
    exact absurd (hlt f x hx) (Nat.not_lt.2 hf)
  · intro s hs hnone r hr
    have hout := (h.seen s hs).2
    rw [hr] at hout
    cases hout
  · intro f v hf hv
    obtain ⟨x, hx, -⟩ := lane?_eq_some.1 hv
    exact absurd (hlt f x hx) (Nat.not_lt.2 hf)
  · intro f v hv
    obtain ⟨x, hx, rfl⟩ := lane?_eq_some.1 hv
    have hf := hlt f x hx
    have hstand : standingAmong (e.staff jobs fl).workers f x.worker = (.away, .idle) :=
      standingAmong_replicate _ _ _ _
    obtain ⟨past, hsteps, hbody⟩ := h.sound f x hx
    have hnotes : ((e.staff jobs fl).laneOf f x).notes = [] := by
      show (seenOf f fl.seen).map Prod.snd = []
      rw [hseen]
      rfl
    refine ⟨⟨past, fun hle => absurd hf (Nat.not_lt.2 hle), ?_, ?_, ?_⟩,
      fun hle => absurd hf (Nat.not_lt.2 hle), fun hle => absurd hf (Nat.not_lt.2 hle),
      fun _ => ⟨?_, ?_⟩⟩
    · intro _
      show (standingAmong (e.staff jobs fl).workers f x.worker).2 = .idle
      rw [hstand]
    · rw [hnotes, List.append_nil]
      exact hsteps
    · rw [hnotes, List.append_nil]
      exact hbody
    · show (standingAmong (e.staff jobs fl).workers f x.worker).1 = .away
      rw [hstand]
    · rw [hnotes]
      exact fun _ hmem => by cases hmem

/-- **What holds at a moment of a schedule holds at the next.** -/
theorem Underway.moves (h : fl.Underway e jobs first) (hm : e.Moves fl fl') :
    fl'.Underway e jobs first :=
  ⟨h.orderly.moves hm, h.ledger.moves h.orderly hm,
    h.lanes.moves (fun _ _ _ hv hp => hv.passes hp)
      (fun i w s _ => Lane.fine_launched e h.ledger.earlier i w s) h.orderly hm⟩

theorem Underway.leads (h : fl.Underway e jobs first) (hl : e.Leads fl fl') :
    fl'.Underway e jobs first :=
  hl.keeps (fun _ _ hm hstep => hm.moves hstep) h

/-- **What holds of a job that was just taken, and what all moves keep, holds of all jobs of a
schedule.** -/
theorem Open.lanes_leads (h : fl.Open e) {P : Lane → Prop}
    (hlaunched : ∀ i w s, P (Lane.launched i w s))
    (hpasses : ∀ f v v', fl.flights.length ≤ f → Lane.Fine e fl.flights.length f v →
        v.Passes e v' →
      P v → P v') (hl : e.Leads (e.staff jobs fl) fl') {f : Nat} {v : Lane}
      (hf : fl.flights.length ≤ f)
    (hv : fl'.lane? f = some v) : P v := by
  -- On the moves so far; a flight is at first one that was just launched.
  induction hl generalizing v with
  | refl =>
    have hlt : f < (e.staff jobs fl).flights.length := length_of_lane hv
    exact absurd hlt (Nat.not_lt.2 hf)
  | tail hln hm ih =>
    have hn := (h.underway_staff jobs).leads hln
    rcases lane?_moves_back hn.orderly hm hv with ⟨u, hu, hp⟩ | ⟨i, w, rfl, -, -, rfl⟩
    · exact hpasses f u v hf (hn.lanes f u hu) hp (ih hu)
    · exact hlaunched i w _

/-! ## The end of a schedule -/

/-- A scheduler that has a turn was called. -/
theorem Staffed.called_of_turn (h : fl.Staffed) {rest : List Turn} (hr : fl.ready =
    .scheduler :: rest) :
    fl.schedulerCall ≠ .idle ∧ { fl with ready := rest }.summons = 0 := by
  have hsummons : fl.summons = { fl with ready := rest }.summons + 1 := by
    rw [summons, countP_pop hr]
    rfl
  have hs := h.summoned
  rw [hsummons] at hs
  by_cases hidle : fl.schedulerCall = .idle
  · rw [if_pos hidle] at hs
    omega
  · rw [if_neg hidle] at hs
    exact ⟨hidle, by omega⟩

/-- All workers were counted. -/
theorem Staffed.done_of_called (h : fl.Staffed) (hcalled : fl.schedulerCall ≠ .idle)
    (hstop : ¬fl.Stopped) :
    0 < fl.workers.length ∧ fl.reports = 0 ∧ ∀ worker ∈ fl.workers, worker.duty =
    .done false := by
  obtain ⟨hpos, hcount⟩ := (h.finished hcalled).resolve_right hstop
  have hle : fl.doneWorkers ≤ fl.workers.length := List.countP_le_length
  have hcounted := h.counted
  have hall : fl.doneWorkers = fl.workers.length := by omega
  refine ⟨hcount ▸ hpos, by omega, fun worker hw => ?_⟩
  have hd := List.countP_eq_length.1 hall worker hw
  cases hduty : worker.duty with
  | done stopped =>
    cases stopped with
    | false => rfl
    | true => exact absurd ⟨worker, hw, hduty⟩ hstop
  | fresh =>
    rw [hduty] at hd
    cases hd
  | watching f =>
    rw [hduty] at hd
    cases hd
  | preempting f cause =>
    rw [hduty] at hd
    cases hd
  | telling jobId due next =>
    rw [hduty] at hd
    cases hd

/-- Workers that are done are not called. -/
theorem Staffed.calls_eq_zero (h : fl.Staffed) (hdone : ∀ worker ∈ fl.workers, worker.duty =
    .done false)
    (w : Nat) : fl.calls w = 0 := by
  cases hget : fl.workers[w]? with
  | none => exact h.known w (List.getElem?_eq_none_iff.1 hget)
  | some worker =>
    have hmem : worker ∈ fl.workers := List.mem_of_getElem? hget
    rw [h.called w worker hget, if_pos (h.rested worker hmem (by rw [hdone worker hmem]; rfl))]

/-- **When the scheduler goes on and no worker was stopped, all workers are done**, nobody of the
crew is called, and the queue is empty. -/
theorem Staffed.finished_all (h : fl.Staffed) {rest : List Turn}
    (hr : fl.ready = .scheduler :: rest) (hstop : ¬fl.Stopped) :
    (∀ worker ∈ fl.workers, worker.duty = .done false) ∧ fl.queue = [] ∧
      ∀ t ∈ { fl with ready := rest }.pending, t.ofCrew = false := by
  obtain ⟨hcalled, hsummons⟩ := h.called_of_turn hr
  obtain ⟨hpos, hreports, hdone⟩ := h.done_of_called hcalled hstop
  have hqueue : fl.queue = [] := by
    obtain ⟨worker, hw⟩ := List.exists_mem_of_length_pos hpos
    exact h.drained ⟨worker, hw, hdone worker hw⟩
  refine ⟨hdone, hqueue, fun t ht => ?_⟩
  -- Turns of which there were none before are none of those that are left.
  have hnone : ∀ p : Turn → Bool, fl.pending.countP p = 0 → ¬p t = true := by
    intro p hp
    have hpop := countP_pop hr p
    exact List.countP_eq_zero.1 (show { fl with ready := rest }.pending.countP p = 0 by
      omega) t ht
  cases t with
  | worker w => exact absurd (decide_eq_true rfl) (hnone _ (h.calls_eq_zero hdone w))
  | workerDone w => exact absurd rfl (hnone _ hreports)
  | scheduler => exact absurd rfl (List.countP_eq_zero.1 hsummons _ ht)
  | flight f c => rfl
  | receiver w => rfl
  | errand act => rfl
  | stop => rfl

/-- Nobody was stopped in a schedule that finished. -/
theorem not_stopped_of_finished (h : Engine.endOf fl = .finished) : ¬fl.Stopped := by
  rintro ⟨worker, hw, hduty⟩
  unfold Engine.endOf at h
  have hany : (fl.workers.any fun w => decide (w.duty = .done true)) = true :=
    List.any_eq_true.2 ⟨worker, hw, decide_eq_true hduty⟩
  rw [hany, Bool.or_true, if_pos rfl] at h
  cases h

end Floor

/-- What is reported of a schedule for some jobs that ends on a floor. -/
def Floor.reportOf (jobs : List JobInstance) (m : Floor σ) : ScheduleReport :=
  { jobs := jobs
    ending := Engine.endOf m
    endedAt := m.now
    ids := m.flights.map fun x => x.job.id
    sightings := m.sightings }

namespace Engine

variable {e : Engine} {fl fl' : Floor σ} {jobs : List JobInstance} {r : ScheduleReport}

/-- A schedule that is reported was advanced along moves until the scheduler went on. -/
theorem reportSchedule_eq_some (hjobs : jobs ≠ []) (h : e.reportSchedule jobs fl =
    some (r, fl')) :
    ∃ m rest, e.Leads (e.staff jobs fl) m ∧ m.ready = .scheduler :: rest ∧
      r = m.reportOf jobs ∧
      fl' = { m with ready := rest }.forget := by
  have hempty : jobs.isEmpty = false := by
    cases jobs with
    | nil => exact absurd rfl hjobs
    | cons i rest => rfl
  unfold reportSchedule schedule at h
  rw [hempty, if_neg Bool.false_ne_true, Option.map_map] at h
  obtain ⟨end_, hadvance, heq⟩ := Option.map_eq_some_iff.1 h
  obtain ⟨m, rest, hlead, hready, rfl⟩ := e.advance_eq_some hadvance
  cases heq
  exact ⟨m, rest, hlead, hready, rfl, rfl⟩

/-- A schedule without jobs is over at once. -/
theorem reportSchedule_nil (e : Engine) (fl : Floor σ) :
    e.reportSchedule [] fl =
      some ({ jobs := []
              ending := .finished
              endedAt := fl.now
              ids := fl.flights.map fun x => x.job.id
              sightings := fl.sightings }, fl.forget) := rfl

end Engine

namespace Floor

variable {e : Engine} {fl fl' : Floor σ} {jobs : List JobInstance} {first : Nat}

/-- **A schedule that is over, as a moment of its run**: if it finished, all its workers are
done, and the queue is empty. -/
theorem Open.exists_end {r : ScheduleReport} (h : fl.Open e)
    (hrun : e.reportSchedule jobs fl = some (r, fl')) :
    ∃ m, e.Leads (e.staff jobs fl) m ∧ r = m.reportOf jobs ∧ fl'.flights = m.flights ∧
      fl'.around = m.around ∧ (r.ending = .finished → ¬m.Stopped ∧
        (∀ worker ∈ m.workers, worker.duty = .done false) ∧ m.queue = []) := by
  by_cases hjobs : jobs = []
  -- A schedule without jobs is over before its first move.
  · subst hjobs
    have hnone : ∀ worker, worker ∉ (e.staff [] fl).workers := by simp [Engine.staff]
    rw [e.reportSchedule_nil] at hrun
    cases hrun
    refine ⟨e.staff [] fl, .refl, ?_, rfl, rfl, fun _ => ⟨?_, ?_, rfl⟩⟩
    · simp [reportOf, Engine.endOf, Engine.staff, Floor.now, Floor.sightings]
    · rintro ⟨worker, hw, -⟩
      exact hnone worker hw
    · exact fun worker hw => absurd hw (hnone worker)
  · obtain ⟨m, rest, hl, hready, rfl, rfl⟩ := Engine.reportSchedule_eq_some hjobs hrun
    refine ⟨m, hl, rfl, rfl, rfl, fun hfinished => ?_⟩
    have hstop := not_stopped_of_finished hfinished
    have hall := ((h.underway_staff jobs).leads hl).orderly.staffed.finished_all hready hstop
    exact ⟨hstop, hall.1, hall.2.1⟩

/-! ## Floors on which a schedule can be started -/

theorem Open.forget (h : fl.Open e) : fl.forget.Open e :=
  { turns := h.turns
    timers := h.timers
    crewless := h.crewless
    sound := h.sound
    seen := fun _ hs => by cases hs }

/-- A timer that belongs to no flight. -/
theorem Open.setTimer (h : fl.Open e) (span : Span) {a : Alarm} (ha : ∀ f b, a ≠ .flight f b) :
    (fl.setTimer span a).Open e := by
  rw [setTimer_eq]
  split
  · refine { turns := h.turns, timers := fun t ht f b hf => ?_, crewless := h.crewless,
             sound := h.sound, seen := h.seen }
    rcases Timer.mem_insert.1 ht with rfl | ht
    · exact absurd hf (ha f b)
    · exact h.timers t ht f b hf
  · exact h

theorem Open.name (h : fl.Open e) (names : Nat) :
    { fl with around := { fl.around with names := names } }.Open e :=
  { turns := h.turns
    timers := h.timers
    crewless := h.crewless
    sound := h.sound
    seen := h.seen }

/-- Somebody outside does something. -/
theorem Open.disturb (h : fl.Open e) (act : Activity Deed Unit) : (fl.disturb act).Open e := by
  obtain ⟨g, ts, hact, hsame, hbody, hts⟩ := disturb_eq act fl
  have hflights : ∀ (f : Nat) (y : Flight), (fl.flights.map g)[f]? = some y →
      ∃ x, fl.flights[f]? = some x ∧ y = g x := by
    intro f y hy
    rw [List.getElem?_map, Option.map_eq_some_iff] at hy
    obtain ⟨x, hx, rfl⟩ := hy
    exact ⟨x, hx, rfl⟩
  rw [hact]
  have hpending : ∀ t ∈ fl.ready ++ (fl.later ++ ts), t ∈ fl.pending ∨ t ∈ ts := by
    intro t ht
    rw [← List.append_assoc] at ht
    exact List.mem_append.1 ht
  refine ⟨?_, ?_, ?_, ?_, ?_⟩
  · intro f c hmem
    show f < (fl.flights.map g).length
    rw [List.length_map]
    rcases hpending _ hmem with hmem | hmem
    · exact h.turns f c hmem
    · obtain ⟨f', hf', hlt⟩ := hts _ hmem
      cases hf'
      exact hlt
  · intro t ht f b hf
    obtain ⟨x, hx, hdue⟩ := h.timers t ht f b hf
    refine ⟨g x, ?_, fun hb => (hsame x).timeoutDue.trans (hdue hb)⟩
    show (fl.flights.map g)[f]? = _
    rw [List.getElem?_map, hx]
    rfl
  · intro t ht
    rcases hpending t ht with ht | ht
    · exact h.crewless t ht
    · obtain ⟨f, rfl, -⟩ := hts t ht
      rfl
  · intro f y hy
    obtain ⟨x, hx, rfl⟩ := hflights f y hy
    obtain ⟨past, hsteps, hsound⟩ := h.sound f x hx
    refine ⟨past, (hbody x).2.trans hsteps, ?_⟩
    rw [(hbody x).1, (hsame x).1]
    have hlater := hsound.later (fun hc => act.proceed_canceled fl.around hc)
      (List.forall_mem_nil _)
    rwa [List.append_nil] at hlater
  · intro s hs
    rcases List.mem_append.1 hs with hs | hs
    · obtain ⟨n, hn, rfl⟩ := List.mem_map.1 (List.mem_reverse.1 hs)
      exact ⟨rfl, act.outside_proceed fl.around n hn⟩
    · exact h.seen s hs

/-- A schedule that has finished leaves a floor on which the next can be started. -/
theorem Open.after (h : fl.Open e) {m : Floor σ} {rest : List Turn}
    (hl : e.Leads (e.staff jobs fl) m) (hr : m.ready = .scheduler :: rest) (hstop : ¬m.Stopped) :
    { m with ready := rest }.forget.Open e := by
  have hm := (h.underway_staff jobs).leads hl
  have hn := hm.orderly.numbered
  refine ⟨fun f c hmem => ?_, hn.timers, (hm.orderly.staffed.finished_all hr hstop).2.2,
    fun f x hx => ?_,
    (fun _ hs => by cases hs)⟩
  · exact (hn.pop hr).turns f c hmem
  · have hlane : m.lane? f = some (m.laneOf f x) := lane?_eq_some.2 ⟨x, hx, rfl⟩
    obtain ⟨past, -, hs⟩ := (hm.lanes f _ hlane).sound
    exact ⟨past ++ (m.laneOf f x).notes, hs.steps, hs.body⟩

end Floor

end Conveyor
