import Conveyor.Proofs.Schedule.Opening
import Conveyor.Schedule.Await

/-!
# Waiting between schedules

Somebody may wait on a floor on which nothing is scheduled. Those who are left of earlier
schedules go on meanwhile, as they do while a schedule runs, but no job is taken. A schedule can
be started afterwards.

- `Floor.Vacant`: what holds on the floor before the wait and after it.
- `Floor.Waits`: what holds while somebody waits; `Floor.Waits.moves`.
- `Floor.Vacant.exists_pause_end`: one wait, as a run of moves.
- `Floor.Vacant.await_keeps`: **what holds on the floor and is kept by every move holds after a
  reception**.
- `Engine.await_of_ended`: a reception that never waits.
- `Engine.Opens`: the floors on which a schedule can be started; `Engine.Opens.isOpen` shows what
  holds on them.
-/

namespace Conveyor

variable {σ : Type}

/-- Nobody is called who belongs to a crew, and what is left of earlier schedules is in order. -/
structure Floor.Vacant (e : Engine) (fl : Floor σ) : Prop where
  turns : ∀ f c, .flight f c ∈ fl.pending → f < fl.flights.length
  timers : ∀ t ∈ fl.timers, ∀ f b, t.alarm = .flight f b →
    ∃ x, fl.flights[f]? = some x ∧ (b = .timeout → x.timeoutDue = some t.due)
  crewless : ∀ t ∈ fl.pending, t.ofCrew = false
  seen : ∀ s ∈ fl.seen, ∀ f, s.flight = some f → f < fl.flights.length
  sound : ∀ f x, fl.flights[f]? = some x → ∃ past,
    x.steps = recordedAmong (past ++ (seenOf f fl.seen).map Prod.snd) ∧
      x.body.Sound e x.job fl.around.canceled (past ++ (seenOf f fl.seen).map Prod.snd)

/-- The first worker waits for a reception, there is no other, and there are no jobs. -/
structure Floor.Waits (fl : Floor σ) : Prop where
  duties : ∃ jobId due next, fl.workers.map Worker.duty = [.telling jobId due next]
  queue : fl.queue = []

namespace Floor

variable {e : Engine} {fl fl' m : Floor σ} {f : Nat} {v : Lane} {span : Nat}
  {next : Bool → Reception σ}

theorem Open.vacant (h : fl.Open e) : fl.Vacant e := by
  have hseen : ∀ f, seenOf f fl.seen = [] := fun f =>
    List.filterMap_eq_nil_iff.2 fun s hs => by
      rw [(h.seen s (List.mem_reverse.1 hs)).1]
      rfl
  refine ⟨h.turns, h.timers, h.crewless, fun s hs f hf => ?_, fun f x hx => ?_⟩
  · rw [(h.seen s hs).1] at hf
    cases hf
  · obtain ⟨past, hpast⟩ := h.sound f x hx
    refine ⟨past, ?_⟩
    rwa [hseen, List.map_nil, List.append_nil]

theorem Vacant.forget (h : fl.Vacant e) : fl.forget.Open e := by
  refine ⟨h.turns, h.timers, h.crewless, fun f x hx => ?_, fun s hs => by cases hs⟩
  obtain ⟨past, hpast⟩ := h.sound f x hx
  exact ⟨_, hpast⟩

/-- Things are seen that are of no flight. -/
theorem Vacant.see (h : fl.Vacant e) (ns : List Note) : (fl.see none ns).Vacant e := by
  refine ⟨h.turns, h.timers, h.crewless, fun s hs f hf => ?_, fun f x hx => ?_⟩
  · rcases List.mem_append.1 hs with hs | hs
    · obtain ⟨n, -, rfl⟩ := List.mem_map.1 (List.mem_reverse.1 hs)
      cases hf
    · exact h.seen s hs f hf
  · rw [seenOf_see_other (by simp)]
    exact h.sound f x hx

theorem Vacant.remember (h : fl.Vacant e) (m : σ) : { fl with memory := m }.Vacant e :=
  ⟨h.turns, h.timers, h.crewless, h.seen, h.sound⟩

/-! ## While somebody waits -/

theorem standingAmong_occupied (f w : Nat) :
    standingAmong fl.occupied.workers f w = (.away, .idle) :=
  standingAmong_replicate 1 f w .idle

/-- Whoever stands on the floor is the only one of a crew. -/
theorem Vacant.staffed_occupied (h : fl.Vacant e) : fl.occupied.Staffed := by
  have hnone : ∀ p : Turn → Bool, (∀ t, p t = true → t.ofCrew = true) →
      fl.pending.countP p = 0 := fun p hp => countP_crewless hp h.crewless
  have hcalls : ∀ w, fl.occupied.calls w = 0 := fun w =>
    hnone _ fun t ht => by cases t <;> first | rfl | cases ht
  have hreports : fl.occupied.reports = 0 :=
    hnone _ fun t ht => by cases t <;> first | rfl | cases ht
  have hsummons : fl.occupied.summons = 0 :=
    hnone _ fun t ht => by cases t <;> first | rfl | cases ht
  refine
    { called := fun w worker hw => ?_
      known := fun w _ => hcalls w
      rested := fun worker hw hd => ?_
      counted := by rw [hreports]; rfl
      finished := fun hc => absurd rfl hc
      reported := fun hlen _ => by cases hlen
      summoned := hsummons
      drained := fun _ => rfl }
  · rw [hcalls, List.mem_singleton.1 (List.mem_of_getElem? hw)]
    rfl
  · rw [List.mem_singleton.1 hw] at hd
    cases hd

theorem Vacant.orderly_pause (h : fl.Vacant e) : (fl.pause span next).Orderly := by
  have hnumbered : fl.occupied.Numbered := by
    refine ⟨fun f w hw => ?_, h.turns, h.timers, h.seen⟩
    rw [standingAmong_occupied] at hw
    exact absurd rfl hw
  exact ⟨hnumbered.attend .., h.staffed_occupied.attend rfl rfl ..⟩

theorem waits_pause : (fl.pause span next).Waits := by
  obtain ⟨ws, ts, timers, hattend, ⟨k, rfl, hk⟩, -⟩ :=
    Engine.attend_eq 0 "" span next fl.occupied
  rw [pause, hattend]
  exact ⟨⟨"", fl.now + span, next, congrArg (fun d => [d]) (hk _)⟩, rfl⟩

/-- The body of a flight agrees with what was seen of it. -/
theorem Vacant.lanes_pause (h : fl.Vacant e) :
    (fl.pause span next).Lanes fun _ v => ∃ past, v.Sound e past := by
  intro f v hv
  obtain ⟨ws, ts, timers, hattend, -⟩ := Engine.attend_eq 0 "" span next fl.occupied
  obtain ⟨x, hx, rfl⟩ := lane?_eq_some.1 hv
  have hidle := call_of_away hv
  rw [pause, hattend] at hx hidle ⊢
  obtain ⟨past, hpast⟩ := h.sound f x hx
  exact ⟨past, hidle, hpast.1, hpast.2⟩

/-- Whoever waits is not at work on any flight. -/
theorem Waits.away (h : fl.Waits) (hv : fl.lane? f = some v) : v.post = .away := by
  by_contra hp
  obtain ⟨worker, hget, hpost, -⟩ := worker_of_lane hv hp
  obtain ⟨jobId, due, next, hduties⟩ := h.duties
  have hmem : worker.duty ∈ fl.workers.map Worker.duty :=
    List.mem_map_of_mem (List.mem_of_getElem? hget)
  rw [hduties] at hmem
  rw [List.mem_singleton.1 hmem] at hpost
  exact hp hpost.symm

theorem Waits.of_same (h : fl.Waits) (hduties : fl'.workers.map Worker.duty =
    fl.workers.map Worker.duty)
    (hqueue : fl'.queue = fl.queue) : fl'.Waits :=
  ⟨hduties ▸ h.duties, hqueue ▸ h.queue⟩

/-- There is no other worker. -/
theorem Waits.workerTurn_eq (h : fl.Waits) (e : Engine) {w : Nat} (hw : w ≠ 0) :
    e.workerTurn w fl = fl := by
  obtain ⟨jobId, due, next, hduties⟩ := h.duties
  have hlength : fl.workers.length = 1 := by
    rw [← List.length_map Worker.duty, hduties]
    rfl
  have hnone : fl.workers[w]? = none := List.getElem?_eq_none_iff.2 (by omega)
  unfold Engine.workerTurn
  rw [hnone]

/-- **Whoever waits goes on waiting**, whatever else happens on the floor. -/
theorem Waits.moves (h : fl.Waits) (hm : e.Moves fl fl')
    (hno : ∀ t rest, fl.ready = t :: rest → t.isWorker 0 = false) :
    fl'.Waits ∧ fl'.memory = fl.memory := by
  cases hm with
  | @turn t rest ready other =>
    have ht := hno t rest ready
    have hpop : { fl with ready := rest }.Waits := ⟨h.duties, h.queue⟩
    have hsteps := steps_step e t { fl with ready := rest }
    generalize e.step t { fl with ready := rest } = fl' at hsteps
    cases hsteps with
    | @desk f v c lane =>
      have hput := putBack f (e.cueTurn c v.desk) { fl with ready := rest }
      have hpost : (e.cueTurn c v.desk).post = .away :=
        (e.fits_cueTurn rfl rfl (call_of_away lane) c).post.2 (hpop.away lane)
      refine ⟨hpop.of_same ?_ hput.queue, hput.memory⟩
      -- A worker that is at no flight is as it was.
      rw [hput.workers, hpost]
      exact congrArg (List.map Worker.duty) (List.modify_id _ _)
    | worker w =>
      have hw : w ≠ 0 := of_decide_eq_false ht
      rw [hpop.workerTurn_eq e hw]
      exact ⟨hpop, rfl⟩
    | receiver w ws ts duties => exact ⟨hpop.of_same duties rfl, rfl⟩
    | stop ws ts doom duties => exact ⟨hpop.of_same duties rfl, rfl⟩
    | _ => exact ⟨hpop.of_same rfl rfl, rfl⟩
  | round ready next =>
    rw [(nextRound_eq_some next).2.2]
    exact ⟨h.of_same rfl rfl, rfl⟩

/-- The scheduler is not called as long as somebody waits. -/
theorem Waits.schedulerCall (h : fl.Waits) (hs : fl.Staffed) :
    fl.schedulerCall = .idle ∧ fl.reports = 0 := by
  obtain ⟨jobId, due, next, hduties⟩ := h.duties
  have hduty : ∀ worker ∈ fl.workers, worker.duty = .telling jobId due next :=
      fun worker hw => by
    have hmem := List.mem_map_of_mem (f := Worker.duty) hw
    rw [hduties] at hmem
    exact List.mem_singleton.1 hmem
  have hdone : fl.doneWorkers = 0 := List.countP_eq_zero.2 fun worker hw => by
    rw [hduty worker hw]
    exact Bool.false_ne_true
  have hcounted := hs.counted
  refine ⟨?_, by omega⟩
  by_contra hcall
  rcases hs.finished hcall with ⟨hpos, -⟩ | ⟨worker, hw, hstopped⟩
  · omega
  · rw [hduty worker hw] at hstopped
    cases hstopped

/-- When the first worker has its turn, nobody else of a crew is called. -/
theorem Waits.crewless (h : fl.Waits) (hs : fl.Staffed) {rest : List Turn}
    (hr : fl.ready = .worker 0 :: rest) : ∀ t ∈ { fl with ready := rest }.pending, t.ofCrew =
    false := by
  obtain ⟨hsched, hreports⟩ := h.schedulerCall hs
  obtain ⟨jobId, due, next, hduties⟩ := h.duties
  obtain ⟨worker, hworkers, -⟩ := List.map_eq_singleton_iff.1 hduties
  have hnone : ∀ p : Turn → Bool, { fl with ready := rest }.pending.countP p = 0 →
      ∀ t ∈ { fl with ready := rest }.pending, ¬p t = true :=
        fun p hp => List.countP_eq_zero.1 hp
  intro t ht
  cases t with
  | worker w =>
    refine absurd (decide_eq_true rfl) (hnone (Turn.isWorker w) ?_ _ ht)
    have hpop := countP_pop hr (Turn.isWorker w)
    by_cases hw : w = 0
    · subst hw
      have hcalled := hs.called 0 worker (by rw [hworkers]; rfl)
      have hle : fl.calls 0 ≤ 1 := by
        rw [hcalled]
        split <;> simp
      rw [calls] at hle
      simp only [Turn.isWorker, decide_true, if_pos] at hpop
      exact Nat.le_zero.1 (by simpa [hpop, Turn.isWorker] using hle)
    · have hknown : fl.pending.countP (Turn.isWorker w) = 0 :=
        hs.known w (by rw [hworkers]; exact Nat.one_le_iff_ne_zero.2 hw)
      omega
  | workerDone w =>
    have hpop := countP_pop hr Turn.isWorkerDone
    have hzero : fl.pending.countP Turn.isWorkerDone = 0 := hreports
    exact absurd rfl (hnone Turn.isWorkerDone (by omega) _ ht)
  | scheduler =>
    have hpop := countP_pop hr Turn.isScheduler
    have hzero : fl.pending.countP Turn.isScheduler = 0 := by
      have hsummoned := hs.summoned
      rwa [if_pos hsched] at hsummoned
    exact absurd rfl (hnone Turn.isScheduler (by omega) _ ht)
  | flight f c => rfl
  | receiver w => rfl
  | errand act => rfl
  | stop => rfl

/-- Nobody is left on the floor when whoever waited goes on. -/
theorem Waits.vacant (h : fl.Waits) (ho : fl.Orderly) (hlanes : fl.Lanes fun _ v => ∃ past,
    v.Sound e past)
    {rest : List Turn} (hr : fl.ready = .worker 0 :: rest) :
    { fl with ready := rest }.Vacant e := by
  refine ⟨(ho.numbered.pop hr).turns, ho.numbered.timers, h.crewless ho.staffed hr,
      ho.numbered.seen,
    fun f x hx => ?_⟩
  obtain ⟨past, hsound⟩ := hlanes f (fl.laneOf f x) (lane?_eq_some.2 ⟨x, hx, rfl⟩)
  exact ⟨past, hsound.steps, hsound.body⟩

/-- **One wait is a run of moves**, on which no job is taken and nothing is remembered. -/
theorem Vacant.exists_pause_end (h : fl.Vacant e) {P : Floor σ → Prop}
    (hmoves : ∀ m m', m.Orderly → m.Waits → P m → e.Moves m m' → P m')
    (hp : P (fl.pause span next))
    (hrun : e.advance (Turn.isWorker 0) (fl.pause span next) = some fl') :
    ∃ m rest, P m ∧ fl' = { m with ready := rest } ∧ m.memory = fl.memory ∧ fl'.Vacant e := by
  have hmemory : (fl.pause span next).memory = fl.memory := by
    obtain ⟨ws, ts, timers, hattend, -⟩ := Engine.attend_eq 0 "" span next fl.occupied
    rw [pause, hattend]
    rfl
  have hend := e.advance_eq_some_of (P := fun m => m.Orderly ∧
    m.Lanes (fun _ v => ∃ past, v.Sound e past) ∧ m.Waits ∧ m.memory = fl.memory ∧ P m) ?_ ?_
    ⟨h.orderly_pause, h.lanes_pause, waits_pause, hmemory, hp⟩ hrun
  · obtain ⟨m, t, rest, -, ⟨ho, hlanes, hw, hm, hpm⟩, hr, ht, rfl⟩ := hend
    obtain rfl : t = .worker 0 := by
      cases t <;> first | exact congrArg Turn.worker (of_decide_eq_true ht) | cases ht
    exact ⟨m, rest, hpm, rfl, hm, hw.vacant ho hlanes hr⟩
  -- Nobody has called the scheduler.
  · rintro m t rest ⟨ho, -, hw, -⟩ hr - rfl
    exact (ho.staffed.called_of_turn hr).1 (hw.schedulerCall ho.staffed).1
  · rintro m m' ⟨ho, hlanes, hw, hmem, hpm⟩ hmove hno
    obtain ⟨hw', hmem'⟩ := hw.moves hmove hno
    exact ⟨ho.moves hmove, hlanes.moves (fun f v v' hv hpass => hv.imp fun past hs =>
        hs.passes hpass)
      (fun i w s _ => ⟨[], Lane.sound_launched e i w s⟩) ho hmove, hw', hmem'.trans hmem,
      hmoves m m' ho hw hpm hmove⟩

/-- **What holds on a floor on which somebody waits, and is kept by every move, holds after the
reception.** -/
theorem Vacant.await_keeps {P : Floor σ → Prop}
    (hcongr : ∀ m m' : Floor σ, m'.around = m.around → m'.flights = m.flights → P m → P m')
    (hmoves : ∀ m m', m.Orderly → m.Waits → P m → e.Moves m m' → P m') {a : Reception σ}
    {ending : Ending Unit} (h : fl.Vacant e) (hp : P fl) (hrun : e.await a fl =
        some (ending, fl')) :
    fl'.Vacant e ∧ P fl' := by
  induction a generalizing fl with
  | finish ending =>
    cases hrun
    exact ⟨h, hp⟩
  | note d next ih => exact ih (h.see _) (hcongr fl _ rfl rfl hp) hrun
  | wait span next ih =>
    rw [Engine.await] at hrun
    split at hrun
    · rename_i fl₁ hadvance
      have hpause : P (fl.pause span next) := by
        obtain ⟨ws, ts, timers, hattend, -⟩ := Engine.attend_eq 0 "" span next fl.occupied
        rw [pause, hattend]
        exact hcongr fl _ rfl rfl hp
      obtain ⟨m, rest, hm, rfl, -, hvacant⟩ := h.exists_pause_end hmoves hpause hadvance
      exact ih _ hvacant (hcongr m _ rfl rfl hm) hrun
    · cases hrun
  | clock next ih => exact ih _ h hp hrun
  | poll next ih => exact ih _ h hp hrun
  | look next ih => exact ih _ h hp hrun
  | keep m next ih => exact ih (h.remember m) (hcongr fl _ rfl rfl hp) hrun

end Floor

namespace Engine

/-- How somebody goes on who has waited for a turn of a reception. -/
def awaitRest (e : Engine) : Reception.Rest σ → Floor σ → Option (Ending Unit × Floor σ)
  | .ended ending, fl => some (ending, fl)
  | .waiting span next, fl =>
    match e.advance (Turn.isWorker 0) (fl.pause span next) with
    | some fl' => e.await (next fl'.isCut) fl'
    | none => none

/-- A reception is waited for turn after turn. -/
theorem await_eq (e : Engine) (a : Reception σ) (fl : Floor σ) :
    e.await a fl = e.awaitRest (a.proceed fl.around fl.memory).rest
      { fl.see none (a.proceed fl.around fl.memory).notes with
        memory := (a.proceed fl.around fl.memory).memory } := by
  induction a generalizing fl with
  | finish ending => rfl
  | wait span next ih =>
    rw [await]
    rfl
  | note d next ih =>
    refine (ih (fl.see none [d.toNote])).trans ?_
    simp [Reception.proceed, Floor.see, Floor.now]
  | clock next ih => exact ih _ fl
  | poll next ih => exact ih _ fl
  | look next ih => exact ih _ fl
  | keep m next ih => exact ih { fl with memory := m }

/-- A reception that ends in its first turn is not waited for. -/
theorem await_of_ended (e : Engine) {a : Reception σ} {fl : Floor σ} {ending : Ending Unit}
    (h : (a.proceed fl.around fl.memory).rest = .ended ending) :
    e.await a fl = some (ending, { fl.see none (a.proceed fl.around fl.memory).notes with
      memory := (a.proceed fl.around fl.memory).memory }) := by
  rw [await_eq, h]
  rfl

end Engine

/-- The floors on which a schedule can be started: an empty one, one for which something is
planned, one on which somebody has waited, and one on which a schedule has finished. Whoever is
told of the results may change from one schedule to the next. -/
inductive Engine.Opens (e : Engine) : Floor σ → Prop
  | start (names processes : Nat) (memory : σ) : Opens e (.start names processes memory)
  /-- Somebody else is told of the results. -/
  | tell {fl : Floor σ} (h : Opens e fl) (receiver : Receiver σ) (memory : σ) :
      Opens e { fl with receiver := receiver, memory := memory }
  /-- Somebody outside will do something. -/
  | plan {fl : Floor σ} (h : Opens e fl) (span : Nat) (act : Activity Deed Unit) :
      Opens e (fl.plan span act)
  /-- Somebody outside does something. -/
  | disturb {fl : Floor σ} (h : Opens e fl) (act : Activity Deed Unit) : Opens e (fl.disturb act)
  /-- The schedule to come will be stopped. -/
  | stop {fl : Floor σ} (h : Opens e fl) (span : Span) : Opens e (fl.setTimer span .stop)
  /-- Names are given away. -/
  | name {fl : Floor σ} (h : Opens e fl) (names : Nat) :
      Opens e { fl with around := { fl.around with names := names } }
  | forget {fl : Floor σ} (h : Opens e fl) : Opens e fl.forget
  /-- Somebody has waited for a reception. -/
  | await {fl fl' : Floor σ} {a : Reception σ} {ending : Ending Unit} (h : Opens e fl)
      (run : e.await a fl = some (ending, fl')) : Opens e fl'.forget
  /-- A schedule has finished. -/
  | after {fl fl' : Floor σ} {jobs : List JobInstance} {r : ScheduleReport} (h : Opens e fl)
      (run : e.reportSchedule jobs fl = some (r, fl')) (finished : r.ending = .finished) :
      Opens e fl'

/-- **What holds on every floor on which a schedule can be started.** -/
theorem Engine.Opens.isOpen {e : Engine} {fl : Floor σ} (h : e.Opens fl) : fl.Open e := by
  induction h with
  | start names processes memory =>
    exact ⟨(fun _ _ hmem => by cases hmem), (fun _ ht => by cases ht), (fun _ ht => by cases ht),
      fun f x hx => by simp [Floor.start] at hx, (fun _ hs => by cases hs)⟩
  | tell h receiver memory ih =>
    exact { turns := ih.turns, timers := ih.timers, crewless := ih.crewless, sound := ih.sound,
            seen := ih.seen }
  | plan h span act ih => exact ih.setTimer _ (by simp)
  | disturb h act ih => exact ih.disturb act
  | stop h span ih => exact ih.setTimer _ (by simp)
  | name h names ih => exact ih.name names
  | forget h ih => exact ih.forget
  | await h run ih =>
    exact (ih.vacant.await_keeps (P := fun _ => True) (fun _ _ _ _ => id)
        (fun _ _ _ _ _ _ => trivial)
      trivial run).1.forget
  | @after fl fl' jobs r h run finished ih =>
    by_cases hjobs : jobs = []
    · subst hjobs
      rw [e.reportSchedule_nil] at run
      cases run
      exact ih.forget
    · obtain ⟨m, rest, hl, hr, rfl, rfl⟩ := Engine.reportSchedule_eq_some hjobs run
      exact ih.after hl hr (Floor.not_stopped_of_finished finished)

end Conveyor
