import Conveyor.Proofs.Schedule.Fairness
import Conveyor.Proofs.Schedule.Roster
import Conveyor.Proofs.Schedule.Shadow

/-!
# A job alone

A schedule of one job. As long as its worker has it, there is nothing on the floor but its track:
each turn is a turn on the track, and each round is one of the track.

- `Floor.Alone`: one job is in flight, and there is nothing else on the floor.
- `Floor.Alone.own`, `Floor.Alone.round`: **what is to happen next on the track happens next on
  the floor**.
- `Floor.Alone.ends`: **the schedule ends when the job has its result**.
- `Floor.Solo`: a schedule of one job, as long as the worker has it; `Floor.Solo.finishes`.
-/

namespace Conveyor

variable {σ : Type}

/-- The turn of the only job in flight, and of the only worker. -/
def Item.turn : Item → Turn
  | cue c => .flight 0 c
  | worker => .worker 0

theorem Item.turn_ne_scheduler (i : Item) : i.turn ≠ .scheduler := by
  cases i with
  | cue c => exact fun h => by cases h
  | worker => exact fun h => by cases h

theorem Item.item?_turn (i : Item) {post : Post} (hp : post ≠ .away) :
    i.turn.item? 0 0 post = some i := by
  cases i with
  | cue c => simp [turn, Turn.item?]
  | worker => simp [turn, Turn.item?, hp]

/-- A worker goes on waiting iff it still has the job after its turn. -/
theorem Lane.stays_iff (e : Engine) {v : Lane} (hp : v.post ≠ .away) :
    (v.workerTurn e).post ≠ .away ↔ (v.tend e).2 = .stay := by
  have hput : (v.idled.put (v.tend e).1).post ≠ .away := by
    rw [put_eq]
    exact (v.tends_tend e hp).post
  rw [workerTurn_eq e hp]
  unfold after
  cases hsq : (v.tend e).2 with
  | stay => exact iff_of_true hput rfl
  | free => exact iff_of_false (fun h => h rfl) (fun h => by cases h)
  | stop => exact iff_of_false (fun h => h rfl) (fun h => by cases h)

namespace Floor

variable {e : Engine} {fl : Floor σ} {k : Track} {v : Lane} {i : Item}

/-- One job is in flight, and there is nothing else on the floor. -/
structure Alone (fl : Floor σ) : Prop where
  length : fl.flights.length = 1
  workers : fl.workers.length = 1
  queue : fl.queue = []
  turns : ∀ t ∈ fl.pending, ∃ i : Item, t = i.turn
  timers : ∀ t ∈ fl.timers, ∃ b, t.alarm = .flight 0 b
  doomed : fl.doomed = false
  brisk : fl.Brisk

/-! ## Everything concerns the job -/

theorem worker_lt_of_lane {f : Nat} (hv : fl.lane? f = some v) (hp : v.post ≠ .away) :
    v.flight.worker < fl.workers.length := by
  obtain ⟨x, hx, rfl⟩ := lane?_eq_some.1 hv
  by_contra hge
  have hnone : fl.workers[x.worker]? = none := List.getElem?_eq_none (Nat.le_of_not_lt hge)
  refine hp ?_
  show (standingAmong fl.workers f x.worker).1 = .away
  rw [standingAmong, hnone]
  rfl

theorem Alone.worker (h : fl.Alone) (hv : fl.lane? 0 = some v) (hp : v.post ≠ .away) :
    v.flight.worker = 0 := by
  have hlt := worker_lt_of_lane hv hp
  rw [h.workers] at hlt
  omega

/-- The turns to come are those of the track. -/
theorem Alone.ready_eq (h : fl.Alone) (hv : fl.lane? 0 = some v) (hp : v.post ≠ .away) :
    fl.ready = v.ready.map Item.turn ∧ fl.later = v.later.map Item.turn := by
  have hitems : ∀ ts : List Turn, (∀ t ∈ ts, t ∈ fl.pending) →
      ts = (ts.filterMap (Turn.item? 0 v.flight.worker v.post)).map Item.turn := by
    intro ts hts
    rw [h.worker hv hp]
    induction ts with
    | nil => rfl
    | cons t rest ih =>
      obtain ⟨i, rfl⟩ := h.turns t (hts t List.mem_cons_self)
      rw [List.filterMap_cons_some (i.item?_turn hp), List.map_cons]
      exact congrArg (_ :: ·) (ih fun t ht => hts t (List.mem_cons_of_mem _ ht))
  obtain ⟨x, hx, rfl⟩ := lane?_eq_some.1 hv
  exact ⟨hitems _ fun t ht => List.mem_append_left _ ht,
    hitems _ fun t ht => List.mem_append_right _ ht⟩

/-- Every timer is one of the track. -/
theorem Alone.timers_eq (h : fl.Alone) :
    fl.timers = (Timer.chimes 0 fl.timers).map fun c => ⟨c.due, .flight 0 c.bell⟩ := by
  have hall := h.timers
  generalize fl.timers = ts at hall
  induction ts with
  | nil => rfl
  | cons t rest ih =>
    obtain ⟨due, alarm⟩ := t
    obtain ⟨b, hb⟩ := hall _ List.mem_cons_self
    dsimp only at hb
    subst hb
    have hchime : Timer.chime? 0 ⟨due, .flight 0 b⟩ = some ⟨due, b⟩ := Timer.chime?_eq_some.2 rfl
    rw [Timer.chimes, List.filterMap_cons_some hchime, List.map_cons]
    exact congrArg (_ :: ·) (ih fun t ht => hall t (List.mem_cons_of_mem _ ht))

theorem sorted_of_inOrder (hk : fl.track? 0 = some k) (hin : Timer.InOrder fl.timers) :
    k.Sorted := by
  obtain ⟨-, hcs⟩ := lane_of_track? hk
  constructor
  · intro c hc
    rw [hcs] at hc
    obtain ⟨t, ht, hchime⟩ := List.mem_filterMap.1 hc
    have hdue := hin.defined t ht
    rwa [Timer.chime?_eq_some.1 hchime] at hdue
  · rw [hcs]
    refine List.Pairwise.filterMap _ (fun a b hab c hc c' hc' => ?_) hin.sorted
    rwa [Timer.chime?_eq_some.1 hc, Timer.chime?_eq_some.1 hc'] at hab

/-! ## Turns -/

theorem Alone.pop (h : fl.Alone) {t : Turn} {rest : List Turn} (hr : fl.ready = t :: rest) :
    { fl with ready := rest }.Alone := by
  refine { h with turns := fun t ht => h.turns t ?_, brisk := h.brisk.of_workers rfl rfl }
  rw [pending, hr]
  exact List.mem_cons_of_mem _ ht

theorem Alone.idled (h : fl.Alone) (w : Nat) : (Engine.idled w fl).Alone :=
  { h with
    workers := (List.length_modify ..).trans h.workers
    brisk := h.brisk.of_workers rfl (duty_modify_call fl.workers w .idle) }

theorem Alone.put (h : fl.Alone) {d : Desk} (hw : d.flight.worker = 0) : (fl.put 0 d).Alone := by
  have hput := putBack 0 d fl
  obtain ⟨ts, hlater, hts, -⟩ := hput.later
  refine ⟨hput.length.trans h.length, ?_, hput.queue.trans h.queue, fun t ht => ?_,
      fun t ht => ?_,
    hput.doomed.trans h.doomed, h.brisk.put 0 d⟩
  · rw [hput.workers, List.length_modify]
    exact h.workers
  · rw [pending, hput.ready, hlater, ← List.append_assoc] at ht
    rcases List.mem_append.1 ht with ht | ht
    · exact h.turns t ht
    · rcases hts t ht with ⟨g, c, rfl, hg⟩ | rfl
      · rw [h.length] at hg
        obtain rfl : g = 0 := by omega
        exact ⟨.cue c, rfl⟩
      · exact ⟨.worker, by rw [hw]; rfl⟩
  · rcases hput.timers t ht with ht | ⟨span, b, -, ha⟩
    · exact h.timers t ht
    · exact ⟨b, ha⟩

/-- What the worker does in its turn. -/
theorem Alone.serves (h : fl.Alone) (hA : fl.Assigned) (hv : fl.lane? 0 = some v)
    (hp : v.post ≠ .away) :
    e.Carries 0 v.flight.job.id ((Engine.idled 0 fl).put 0 (v.tend e).1) (v.tend e).2
      (e.workerTurn 0 fl) := by
  have hw := h.worker hv hp
  have hlt := worker_lt_of_lane hv hp
  rw [hw] at hlt
  have hget : fl.workers[0]? = some fl.workers[0] := List.getElem?_eq_getElem hlt
  generalize hfl' : e.workerTurn 0 fl = fl'
  cases hfl' ▸ e.serves_workerTurn hA 0 with
  | missing get =>
    rw [hget] at get
    cases get
  | @rest worker get done =>
    have hbusy := busy_of_lane hv hp (by rw [hw]; exact get)
    rw [hbusy] at done
    cases done
  -- A worker without a flight does not have this one.
  | stop get duty => exact absurd (post_of_off hv get (by simp [duty, Duty.postOn]) hw) hp
  | seek get busy off seeks => exact absurd (post_of_off hv get (off 0) hw) hp
  | @tend worker f u _ get lane own post next =>
    have hf : f = 0 := by
      obtain ⟨x, hx, -⟩ := lane?_eq_some.1 lane
      have := (List.getElem?_eq_some_iff.1 hx).1
      rw [h.length] at this
      omega
    subst hf
    obtain rfl := Option.some.inj (hv.symm.trans lane)
    exact next

/-- A turn after which the worker still has the job. -/
theorem Alone.step (h : fl.Alone) (hA : fl.Assigned) (hv : fl.lane? 0 = some v)
    (hp : v.post ≠ .away)
    (hp' : (v.turn e i).post ≠ .away) : (e.step i.turn fl).Alone := by
  have hw := h.worker hv hp
  cases i with
  | cue c =>
    show (fl.atDesk 0 (e.cueTurn c)).Alone
    rw [atDesk, desk?_of_lane hv]
    have hfits := e.fits_cueTurn (d := v.desk) rfl rfl (call_of_away hv) c
    exact h.put (hfits.worker.trans hw)
  | worker =>
    have hcarries := h.serves (e := e) hA hv hp
    rw [(Lane.stays_iff e hp).1 hp'] at hcarries
    show (e.workerTurn 0 fl).Alone
    generalize e.workerTurn 0 fl = fl' at hcarries ⊢
    cases hcarries
    exact (h.idled 0).put ((v.tends_tend e hp).worker.trans hw)

/-- **The next turn on the track is the next turn on the floor.** -/
theorem Alone.own (he : e.Timely) (h : fl.Alone) (hn : fl.Numbered)
    (hin : Timer.InOrder fl.timers)
    (hk : fl.track? 0 = some k) (hp : k.lane.post ≠ .away) {rest : List Item}
    (hr : k.lane.ready = i :: rest) :
    fl.ready = i.turn :: rest.map Item.turn ∧
      (e.step i.turn { fl with ready := rest.map Item.turn }).track? 0 =
        some ((k.pop rest).turn e i) ∧
      (((k.pop rest).turn e i).lane.post ≠ .away →
        (e.step i.turn { fl with ready := rest.map Item.turn }).Alone) := by
  obtain ⟨hv, hcs⟩ := lane_of_track? hk
  have hready : fl.ready = i.turn :: rest.map Item.turn := by
    rw [(h.ready_eq hv hp).1, hr]
    rfl
  have hA : { fl with ready := rest.map Item.turn }.Assigned :=
    assigned_of_same hn.assigned rfl rfl
  have hnow : k.lane.around.now = fl.now := congrArg Surroundings.now (around_of_lane hv)
  have hitem : i.turn.item? 0 k.lane.flight.worker k.lane.post = some i := by
    rw [h.worker hv hp]
    exact i.item?_turn hp
  -- Every turn to come is one in the lane, so that the first of both is the same.
  have hlane : { fl with ready := rest.map Item.turn }.lane? 0 =
      some { k.lane with ready := rest } := by
    rcases lane?_pop hready hv with ⟨j, items, -, hitems, hlane⟩ | ⟨hnone, -⟩
    · rw [hr] at hitems
      rw [hlane, (List.cons.inj hitems).2]
    · rw [hitem] at hnone
      cases hnone
  refine ⟨hready, ?_, fun hp' => (h.pop hready).step hA hlane hp hp'⟩
  rw [track?_of_lane (lane?_step_own e hlane hitem), chimes_step_own he hA hin hlane hitem,
      Track.turn,
    show (k.pop rest).chimes = Timer.chimes 0 fl.timers from hcs,
    show (k.pop rest).lane.around.now = fl.now from hnow]
  rfl

/-! ## Rounds -/

/-- The next round comes when the track wakes up. -/
theorem Alone.wake_eq (h : fl.Alone) (hk : fl.track? 0 = some k) (hp : k.lane.post ≠ .away) :
    (if fl.later = [] then Timer.wakeTime fl.now fl.timers else fl.now) = k.wake := by
  obtain ⟨hv, hcs⟩ := lane_of_track? hk
  have hnow : k.lane.around.now = fl.now := congrArg Surroundings.now (around_of_lane hv)
  have hlater : fl.later = [] ↔ k.lane.later = [] := by
    rw [(h.ready_eq hv hp).2, List.map_eq_nil_iff]
  unfold Track.wake
  simp only [hlater, hnow]
  split
  · rw [h.timers_eq, ← hcs]
    cases k.chimes with
    | nil => rfl
    | cons c rest =>
      obtain ⟨due, bell⟩ := c
      cases due with
      | time u => rfl
      | undefined => rfl
  · rfl

theorem Alone.nextRound (h : fl.Alone) {fl' : Floor σ} (next : fl.nextRound = some fl') :
    fl'.Alone := by
  rw [(nextRound_eq_some next).2.2]
  refine { h with
    turns := fun t ht => ?_
    timers := fun t ht => ?_
    brisk := h.brisk.of_workers rfl rfl }
  · rcases List.mem_append.1 (show t ∈ _ ++ [] from ht) with ht | ht
    · rcases List.mem_append.1 ht with ht | ht
      · exact h.turns t (List.mem_append_right _ ht)
      · obtain ⟨timer, hmem, rfl⟩ := List.mem_map.1 ht
        obtain ⟨b, hb⟩ := h.timers timer (Timer.mem_of_mem_expired.1 hmem)
        exact ⟨.cue (.bell b), by rw [hb]; rfl⟩
    · cases ht
  · exact h.timers t (Timer.mem_of_mem_expired.2 ht)

/-- **The next round on the track is the next round on the floor.** -/
theorem Alone.round (h : fl.Alone) (hin : Timer.InOrder fl.timers) (hk : fl.track? 0 = some k)
    (hp : k.lane.post ≠ .away) (hr : k.lane.ready = []) (hnext : k.lane.later ≠ [] ∨
        k.chimes ≠ []) :
    ∃ fl', e.Moves fl fl' ∧ fl'.track? 0 = some (k.tick k.wake) ∧ fl'.Alone := by
  obtain ⟨hv, hcs⟩ := lane_of_track? hk
  obtain ⟨hready, hlater⟩ := h.ready_eq hv hp
  rw [hr, List.map_nil] at hready
  -- The floor has a next round, since the lane has turns or chimes to come.
  obtain ⟨fl', next⟩ : ∃ fl', fl.nextRound = some fl' := by
    unfold Floor.nextRound
    split
    · rename_i hnone
      obtain ⟨hlnil, htnil⟩ := Bool.and_eq_true_iff.1 hnone
      rw [List.isEmpty_iff] at hlnil htnil
      rcases hnext with hne | hne
      · rw [hlnil] at hlater
        exact absurd (List.map_eq_nil_iff.1 hlater.symm) hne
      · rw [hcs, htnil] at hne
        exact absurd rfl hne
    · exact ⟨_, rfl⟩
  refine ⟨fl', .round hready next, ?_, h.nextRound next⟩
  obtain ⟨hkept, hbells⟩ := chimes_nextRound hin next 0
  have htime : fl'.now = k.wake := (nextRound_eq_some next).2.1.trans (h.wake_eq hk hp)
  rw [track?_of_lane (lane?_nextRound next hv), hbells, hkept, htime, ← hcs]
  rfl

/-! ## The beginning -/

/-- The only worker has just taken the only job. -/
def taken (i : JobInstance) (names processes : Nat) : Floor Unit :=
  Engine.launch 0 i { start names processes () with workers := [⟨.fresh, .idle⟩] }

/-- A schedule of one job begins with the worker that takes it. -/
theorem leads_taken (hfault : e.concurrencyFault? = none) (i : JobInstance)
    (names processes : Nat) :
    e.Leads (e.staff [i] (.start names processes ())) (taken i names processes) := by
  have hcount : min e.maxConcurrency.toNat [i].length = 1 := by
    have hpos := Engine.crew_pos hfault (List.cons_ne_nil i [])
    have hle : min e.maxConcurrency.toNat [i].length ≤ 1 := Nat.min_le_right ..
    omega
  have hstaff : e.staff [i] (.start names processes ()) =
      { start names processes () with
        workers := [⟨.fresh, .called⟩]
        queue := [i]
        later := [.worker 0] } := by
    unfold Engine.staff
    dsimp only
    rw [hcount]
    rfl
  have hround : e.Moves
      { start names processes () with
        workers := [⟨.fresh, .called⟩]
        queue := [i]
        later := [.worker 0] }
      { start names processes () with
        workers := [⟨.fresh, .called⟩]
        queue := [i]
        ready := [.worker 0] } := .round rfl rfl
  have hturn : e.Moves
      { start names processes () with
        workers := [⟨.fresh, .called⟩]
        queue := [i]
        ready := [.worker 0] } (taken i names processes) :=
    .turn rfl (Item.turn_ne_scheduler .worker)
  rw [hstaff]
  exact .head hround (.single hturn)

theorem track?_taken (i : JobInstance) (names processes : Nat) :
    (taken i names processes).track? 0 = some (.launched i 0 ⟨0, false, names, processes⟩) := by
  have hchimes : Timer.chimes 0 (taken i names processes).timers =
      ((Span.ofSeconds i.timeoutSeconds).due 0).toList.map fun due => ⟨due, .timeout⟩ := by
    rw [taken, launch_eq]
    dsimp only
    split
    · rename_i due hdue
      rw [show (Span.ofSeconds i.timeoutSeconds).due 0 = some due from hdue]
      rfl
    · rename_i hdue
      rw [show (Span.ofSeconds i.timeoutSeconds).due 0 = none from hdue]
      rfl
  have hlane : (taken i names processes).lane? 0 =
      some (.launched i 0 ⟨0, false, names, processes⟩) := by
    rw [taken, launch_eq]
    rfl
  rw [track?_of_lane hlane, hchimes]
  rfl

theorem alone_taken (i : JobInstance) (names processes : Nat) :
    (taken i names processes).Alone := by
  rw [taken, launch_eq]
  refine ⟨rfl, rfl, rfl, fun t ht => ?_, fun t ht => ?_, rfl, Receiver.prompt_nobody,
    fun x hx => ?_⟩
  · have hmem : t ∈ [Turn.flight 0 .body, .flight 0 .watch] := ht
    rcases List.mem_pair.1 hmem with rfl | rfl
    · exact ⟨.cue .body, rfl⟩
    · exact ⟨.cue .watch, rfl⟩
  · dsimp only at ht
    split at ht
    · rw [List.mem_singleton.1 ht]
      exact ⟨.timeout, rfl⟩
    · cases ht
  · rw [List.mem_singleton.1 (show x ∈ [⟨.watching 0, .idle⟩] from hx)]
    rfl

/-! ## The end -/

/-- The worker leaves the job with a result, and is done. -/
theorem Alone.closes (h : fl.Alone) (hA : fl.Assigned) (hv : fl.lane? 0 = some v)
    (hp : v.post ≠ .away) {status : JobStatus} (hfree : (v.tend e).2 = .free status) :
    (e.workerTurn 0 fl).queue = [] ∧ (e.workerTurn 0 fl).workers = [⟨.done false, .idle⟩] ∧
      (e.workerTurn 0 fl).Calm := by
  have hcarries := h.serves (e := e) hA hv hp
  have htends := v.tends_tend e hp
  have hw := h.worker hv hp
  have hworker : (v.tend e).1.flight.worker = 0 := htends.worker.trans hw
  have hput := putBack 0 (v.tend e).1 (Engine.idled 0 fl)
  have halone := (h.idled 0).put hworker
  obtain ⟨x, hx⟩ := List.length_eq_one_iff.1 h.workers
  have hworkers : ((Engine.idled 0 fl).put 0 (v.tend e).1).workers =
      [Worker.stand 0 (v.tend e).1.post .idle { x with call := .idle }] := by
    rw [hput.workers, hworker, htends.call]
    show (fl.workers.modify 0 _).modify 0 _ = _
    rw [hx]
    rfl
  rw [hfree] at hcarries
  generalize e.workerTurn 0 fl = fl' at hcarries ⊢
  -- The queue is empty, so that the worker is done after its only job.
  cases hcarries with
  | free seeks prompt =>
    rw [prompt halone.brisk.prompt] at seeks
    obtain ⟨ns, m, rfl⟩ := Shut.seeks (.inr halone.queue) seeks
    have hdone : (((Engine.idled 0 fl).put 0 (v.tend e).1).workers.modify 0
        fun x => { x with duty := .done false }) = [⟨.done false, .idle⟩] := by
      rw [hworkers]
      cases hpost : (v.tend e).1.post with
      | away => exact absurd hpost htends.post
      | watching => rfl
      | preempting cause => rfl
    refine ⟨rfl, hdone, fun hmem => ?_, fun t ht => ?_, halone.doomed, fun y hy => ?_⟩
    · rcases List.mem_append.1 (show _ ∈ _ ++ (_ ++ _) from hmem) with hmem | hmem
      · obtain ⟨i, hi⟩ := halone.turns _ (List.mem_append_left _ hmem)
        cases i <;> cases hi
      · rcases List.mem_append.1 hmem with hmem | hmem
        · obtain ⟨i, hi⟩ := halone.turns _ (List.mem_append_right _ hmem)
          cases i <;> cases hi
        · cases List.mem_singleton.1 hmem
    · obtain ⟨b, hb⟩ := halone.timers t ht
      rw [hb]
      exact fun hstop => by cases hstop
    · have hy' : y ∈ [(⟨.done false, .idle⟩ : Worker σ)] := hdone ▸ hy
      rw [List.mem_singleton.1 hy']
      exact ⟨by simp, by simp⟩

/-- **The schedule ends when the job has its result.** -/
theorem Alone.ends (h : fl.Alone) (ho : fl.Orderly) (heager : fl.Eager 1)
    (hv : fl.lane? 0 = some v)
    (hp : v.post ≠ .away) {rest : List Turn} (hr : fl.ready = .worker 0 :: rest)
    {status : JobStatus} (hfree : (v.tend e).2 = .free status) :
    ∃ m rest', e.Leads (e.step (.worker 0) { fl with ready := rest }) m ∧
      m.ready = .scheduler :: rest' ∧ Engine.endOf m = .finished := by
  have hA : { fl with ready := rest }.Assigned := assigned_of_same ho.numbered.assigned rfl rfl
  have hm : e.Moves fl (e.step (.worker 0) { fl with ready := rest }) :=
    .turn hr (Item.turn_ne_scheduler .worker)
  obtain ⟨u, hu, hpost, htend⟩ : ∃ u, { fl with ready := rest }.lane? 0 = some u ∧
      u.post = v.post ∧ u.tend e = v.tend e := by
    rcases lane?_pop hr hv with ⟨i, items, -, -, hu⟩ | ⟨-, hu⟩
    · exact ⟨_, hu, rfl, rfl⟩
    · exact ⟨v, hu, rfl, rfl⟩
  obtain ⟨hqueue, hworkers, hcalm⟩ :=
    (h.pop hr).closes hA hu (hpost ▸ hp) (htend ▸ hfree)
  have hbrisk := h.brisk.moves ho.numbered hm
  have hclosing : (e.step (.worker 0) { fl with ready := rest }).Closing 1 := by
    refine ⟨ho.moves hm, heager.moves ho.numbered hm, hbrisk, .inr hqueue, fun worker hw => ?_⟩
    have hw' : worker ∈ [(⟨.done false, .idle⟩ : Worker σ)] := hworkers ▸ hw
    rw [List.mem_singleton.1 hw']
    rfl
  obtain ⟨m, rest', hl, hready⟩ := hclosing.ends (e := e) Nat.one_pos
  exact ⟨m, rest', hl, hready, (Calm.leads hcalm hclosing hl).endOf⟩

end Floor

/-! ## Schedules of one job -/

namespace Lane

variable {e : Engine} {v v' : Lane}

/-- A job that its worker has left gets no other result. -/
theorem Passes.results_of_away (hp : v.Passes e v') (haway : v.post = .away) :
    v'.post = .away ∧ ∀ r, .completed r ∈ v'.notes → .completed r ∈ v.notes := by
  rcases hp.quiet_or_turn with ⟨hpost, hseen⟩ | ⟨hne, -⟩
  · refine ⟨hpost.trans haway, fun r hr => ?_⟩
    obtain ⟨⟨t, n⟩, hmem, rfl⟩ := List.mem_map.1 hr
    exact List.mem_map.2 ⟨_, hseen t r hmem, rfl⟩
  · exact absurd haway hne

end Lane

namespace Floor

variable {e : Engine} {fl : Floor Unit} {v : Lane} {names processes : Nat}

theorem results_leads {fl m : Floor σ} {f : Nat} (ho : fl.Orderly) (hl : e.Leads fl m)
    (hv : fl.lane? f = some v)
    (haway : v.post = .away) :
    ∃ u, m.lane? f = some u ∧ u.post = .away ∧ ∀ r, .completed r ∈ u.notes →
    .completed r ∈ v.notes := by
  induction hl with
  | refl => exact ⟨v, hv, haway, fun _ => id⟩
  | @tail m m' hl hm ih =>
    obtain ⟨u, hu, hpost, hresults⟩ := ih
    obtain ⟨u', hu', hpass⟩ := lane?_moves (ho.leads hl).numbered hm hu
    obtain ⟨hpost', hresults'⟩ := hpass.results_of_away hpost
    exact ⟨u', hu', hpost', fun r hr => hresults r (hresults' r hr)⟩

/-- A schedule of one job, as long as the worker has it. -/
structure Solo (e : Engine) (names processes : Nat) (i : JobInstance) (fl : Floor Unit) :
    Prop where
  leads : e.Leads (e.staff [i] (.start names processes ())) fl
  alone : fl.Alone

variable {i : JobInstance} {k : Track}

theorem Solo.orderly (h : fl.Solo e names processes i) : fl.Orderly :=
  ((Engine.Opens.start names processes ()).isOpen.orderly_staff [i]).leads h.leads

theorem Solo.inTime (h : fl.Solo e names processes i) (he : e.Timely) (hi : i.isTimely = true) :
    fl.InTime := by
  have hstart : (e.staff [i] (.start names processes ())).InTime :=
    ⟨Timer.inOrder_nil, fun j hj => by rwa [List.mem_singleton.1 hj]⟩
  exact hstart.leads he ((Engine.Opens.start names processes ()).isOpen.orderly_staff [i])
    h.leads

theorem Solo.eager (h : fl.Solo e names processes i) : fl.Eager 1 := by
  have hstaff := eager_staff e [i] (.start names processes ())
  have heager := hstaff.leads ((Engine.Opens.start names processes ()).isOpen.orderly_staff [i])
    h.leads
  rw [← heager.size, h.alone.workers] at heager
  exact heager

/-- The worker has just taken the job. -/
theorem solo_taken (hfault : e.concurrencyFault? = none) (i : JobInstance)
    (names processes : Nat) :
    (taken i names processes).Solo e names processes i :=
  ⟨leads_taken hfault i names processes, alone_taken i names processes⟩

/-- A turn after which the worker still has the job. -/
theorem Solo.own (h : fl.Solo e names processes i) (he : e.Timely) (hi : i.isTimely = true)
    (hk : fl.track? 0 = some k) (hp : k.lane.post ≠ .away) {item : Item} {rest : List Item}
    (hr : k.lane.ready = item :: rest) (hp' : ((k.pop rest).turn e item).lane.post ≠ .away) :
    ∃ fl' : Floor Unit, fl'.Solo e names processes i ∧ fl'.track? 0 =
    some ((k.pop rest).turn e item) := by
  obtain ⟨hready, htrack, halone⟩ :=
    h.alone.own he h.orderly.numbered (h.inTime he hi).timers hk hp hr
  exact ⟨_, ⟨h.leads.tail (.turn hready item.turn_ne_scheduler), halone hp'⟩, htrack⟩

/-- The next round. -/
theorem Solo.round (h : fl.Solo e names processes i) (he : e.Timely) (hi : i.isTimely = true)
    (hk : fl.track? 0 = some k) (hp : k.lane.post ≠ .away) (hr : k.lane.ready = [])
    (hnext : k.lane.later ≠ [] ∨ k.chimes ≠ []) :
    ∃ fl' : Floor Unit, fl'.Solo e names processes i ∧ fl'.track? 0 = some (k.tick k.wake) := by
  obtain ⟨fl', hm, htrack, halone⟩ := h.alone.round (h.inTime he hi).timers hk hp hr hnext
  exact ⟨fl', ⟨h.leads.tail hm, halone⟩, htrack⟩

/-- **A schedule of one job finishes when its worker leaves the job with a result**, and there is
no other result. -/
theorem Solo.finishes (h : fl.Solo e names processes i) (he : e.Timely) (hi : i.isTimely = true)
    (hk : fl.track? 0 = some k) (hp : k.lane.post ≠ .away) {rest : List Item}
    (hr : k.lane.ready = .worker :: rest) {status : JobStatus}
    (hfree : (k.lane.tend e).2 = .free status) :
    ∃ m turns v, e.Leads (e.staff [i] (.start names processes ())) m ∧
    m.ready = .scheduler :: turns ∧
      Engine.endOf m = .finished ∧ m.lane? 0 = some v ∧
      ∀ r, .completed r ∈ v.notes → .completed r ∈ ((k.pop rest).turn e .worker).lane.notes := by
  obtain ⟨hv, -⟩ := lane_of_track? hk
  obtain ⟨hready, htrack, -⟩ :=
    h.alone.own he h.orderly.numbered (h.inTime he hi).timers hk hp hr
  have hm := Engine.Moves.turn (e := e) hready (Item.turn_ne_scheduler .worker)
  obtain ⟨m, turns, hl, hsched, hend⟩ :=
    h.alone.ends (e := e) h.orderly h.eager hv hp hready hfree
  have haway : ((k.pop rest).turn e .worker).lane.post = .away := by
    by_contra hne
    have hstay := (Lane.stays_iff e (v := (k.pop rest).lane) hp).1 hne
    rw [show ((k.pop rest).lane.tend e).2 = .free status from hfree] at hstay
    cases hstay
  obtain ⟨v, hv', -, hresults⟩ :=
    results_leads (h.orderly.moves hm) hl (lane_of_track? htrack).1 haway
  exact ⟨m, turns, v, h.leads.trans (.head hm hl), hsched, hend, hv', hresults⟩

end Floor

end Conveyor
