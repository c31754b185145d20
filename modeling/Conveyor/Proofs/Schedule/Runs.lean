import Conveyor.Proofs.Schedule.Dealing
import Mathlib.Logic.Relation

/-!
# Runs

A schedule runs move by move: the next turn, or the next round if no turn is left in this one. It
is over when the scheduler goes on.

- `Engine.Moves`, `Engine.Leads`: one move, and any number of them.
- `Engine.advance_eq_some`, `Engine.advance_of_leads`: the floor is advanced along the moves.
- `Floor.Orderly`: numbers and crew are in order; moves keep it so.
- `Lane.Passes`: a move, seen from a lane.
- `Floor.lane?_moves`: **every move is, in every lane, one of these**.
- `Floor.Lanes`: what holds in all lanes; `Floor.Lanes.leads` shows it for a run.
- `Floor.Stopped.moves`: a worker that was stopped stays so.
-/

namespace Conveyor

variable {σ : Type}

namespace Engine

/-- One move: the next turn, unless it is that of the scheduler, or the next round. -/
inductive Moves (e : Engine) : Floor σ → Floor σ → Prop
  | turn {fl : Floor σ} {t : Turn} {rest : List Turn} (ready : fl.ready = t :: rest)
      (other : t ≠ .scheduler) : Moves e fl (e.step t { fl with ready := rest })
  | round {fl fl' : Floor σ} (ready : fl.ready = []) (next : fl.nextRound = some fl') :
    Moves e fl fl'

/-- Any number of moves. -/
def Leads (e : Engine) : Floor σ → Floor σ → Prop := Relation.ReflTransGen e.Moves

theorem not_isScheduler {t : Turn} (h : t ≠ .scheduler) : ¬t.isScheduler = true := by
  cases t <;> first | exact Bool.false_ne_true | exact absurd rfl h

theorem eq_of_isScheduler {t : Turn} (h : t.isScheduler = true) : t = .scheduler := by
  cases t <;> first | rfl | cases h

variable {halts : Turn → Bool}

theorem advance_halts (e : Engine) {fl : Floor σ} {t : Turn} {rest : List Turn}
    (h : fl.ready = t :: rest) (ht : halts t = true) :
    e.advance halts fl = some { fl with ready := rest } := by
  rw [advance.eq_1, h]
  exact if_pos ht

theorem advance_scheduler (e : Engine) {fl : Floor σ} {rest : List Turn}
    (h : fl.ready = .scheduler :: rest) :
    e.advance Turn.isScheduler fl = some { fl with ready := rest } :=
  e.advance_halts h rfl

/-- A move does not change where the floor is advanced to. -/
theorem advance_of_moves (e : Engine) {fl fl' : Floor σ} (h : e.Moves fl fl') :
    e.advance Turn.isScheduler fl = e.advance Turn.isScheduler fl' := by
  cases h with
  | turn ready other =>
    rw [advance.eq_1, ready]
    exact if_neg (not_isScheduler other)
  | round ready next => rw [advance.eq_1, ready, next]

theorem advance_of_leads (e : Engine) {fl fl' : Floor σ} (h : e.Leads fl fl') :
    e.advance Turn.isScheduler fl = e.advance Turn.isScheduler fl' := by
  induction h with
  | refl => rfl
  | tail _ hlast ih => exact ih.trans (e.advance_of_moves hlast)

/-- **The floor is advanced along moves until a turn comes up at which to halt**, if the
scheduler does not go on before; `P` is what is known of the floor until then. -/
theorem advance_eq_some_of (e : Engine) {P : Floor σ → Prop}
    (hturn : ∀ fl t rest, P fl → fl.ready = t :: rest → halts t = false → t ≠ .scheduler)
    (hmoves : ∀ fl fl', P fl → e.Moves fl fl' →
      (∀ t rest, fl.ready = t :: rest → halts t = false) → P fl')
    {fl fl' : Floor σ} (hp : P fl) (h : e.advance halts fl = some fl') :
    ∃ m t rest, e.Leads fl m ∧ P m ∧ m.ready = t :: rest ∧ halts t = true ∧
      fl' = { m with ready := rest } := by
  revert hp h
  refine fun hp h => advance.partial_correctness e halts (fun fl fl' => P fl → ∃ m t rest,
    e.Leads fl m ∧ P m ∧ m.ready = t :: rest ∧ halts t = true ∧
    fl' = { m with ready := rest }) ?_
    fl fl' h hp
  intro advance ih fl fl' h hp
  split at h
  · rename_i t rest hr
    split at h
    · rename_i ht
      cases h
      exact ⟨fl, t, rest, .refl, hp, hr, ht, rfl⟩
    · rename_i ht
      have hgo : halts t = false := eq_false_of_ne_true ht
      have hm : e.Moves fl (e.step t { fl with ready := rest }) :=
        .turn hr (hturn fl t rest hp hr hgo)
      obtain ⟨m, t', rest', hlead, hm'⟩ := ih _ _ h (hmoves _ _ hp hm fun t' rest' hr' => by
        rw [hr] at hr'
        rw [← (List.cons.inj hr').1]
        exact hgo)
      exact ⟨m, t', rest', .head hm hlead, hm'⟩
  · rename_i hr
    split at h
    · rename_i next hnext
      have hm : e.Moves fl next := .round hr hnext
      obtain ⟨m, t', rest', hlead, hm'⟩ := ih _ _ h (hmoves _ _ hp hm fun t rest hr' => by
        rw [hr] at hr'
        cases hr')
      exact ⟨m, t', rest', .head hm hlead, hm'⟩
    · cases h

/-- **The floor is advanced along moves until the scheduler goes on.** -/
theorem advance_eq_some (e : Engine) {fl fl' : Floor σ} (h : e.advance Turn.isScheduler fl =
    some fl') :
    ∃ m rest, e.Leads fl m ∧ m.ready = .scheduler :: rest ∧ fl' = { m with ready := rest } := by
  obtain ⟨m, t, rest, hlead, -, hr, ht, hfl'⟩ := e.advance_eq_some_of (P := fun _ => True)
    (fun fl t rest _ _ ht hsched => by rw [hsched] at ht; cases ht) (fun _ _ _ _ _ => trivial)
      trivial h
  exact ⟨m, rest, hlead, eq_of_isScheduler ht ▸ hr, hfl'⟩

/-- What every move keeps, a run keeps. -/
theorem Leads.keeps {e : Engine} {P : Floor σ → Prop} (hstep : ∀ fl fl', P fl →
    e.Moves fl fl' → P fl')
    {fl fl' : Floor σ} (h : e.Leads fl fl') (hp : P fl) : P fl' := by
  induction h with
  | refl => exact hp
  | tail _ hlast ih => exact hstep _ _ ih hlast

end Engine

/-- Has the timeout of a flight come? -/
def Flight.overdueAt (time : Nat) (x : Flight) : Bool := x.timeoutDue.any (Due.hasCome time)

/-- One move, seen from a lane. -/
inductive Lane.Passes (e : Engine) : Lane → Lane → Prop
  /-- The next turn of the lane. -/
  | own {v : Lane} {i : Item} {rest : List Item} (ready : v.ready = i :: rest) :
      Passes e v ({ v with ready := rest }.turn e i)
  /-- A turn of somebody else. -/
  | other {v : Lane} {s : Surroundings} (now : s.now = v.around.now)
      (canceled : v.around.canceled = true → s.canceled = true) : Passes e v (v.moveTo s)
  /-- The whole schedule is stopped. -/
  | cut {v : Lane} : Passes e v v.cut
  /-- The next round; no time passes as long as there are turns to come. -/
  | round {v : Lane} {time : Nat} {bells : List Bell} (ready : v.ready = [])
      (now : v.around.now ≤ time) (later : v.later ≠ [] → time = v.around.now)
      (timeout : .timeout ∈ bells → v.flight.overdueAt time = true) :
        Passes e v (v.tick time bells)

namespace Floor

/-! ## Order on the floor -/

/-- Numbers and crew are in order. -/
structure Orderly (fl : Floor σ) : Prop where
  numbered : fl.Numbered
  staffed : fl.Staffed

variable {e : Engine} {fl fl' : Floor σ} {f : Nat} {v : Lane}

theorem Orderly.moves (h : fl.Orderly) (hm : e.Moves fl fl') : fl'.Orderly := by
  cases hm with
  | turn ready other =>
    exact ⟨(h.numbered.pop ready).step e _, h.staffed.step h.numbered.assigned e ready other⟩
  | round ready next => exact ⟨h.numbered.nextRound next, h.staffed.nextRound ready next⟩

/-! ## Moves, seen from a lane -/

/-- The next turn is taken up: it is the next of the lane, or does not concern it. -/
theorem lane?_pop {t : Turn} {rest : List Turn} (hr : fl.ready = t :: rest)
    (hv : fl.lane? f = some v) :
    (∃ i items, t.item? f v.flight.worker v.post = some i ∧ v.ready = i :: items ∧
      { fl with ready := rest }.lane? f = some { v with ready := items }) ∨
    t.item? f v.flight.worker v.post = none ∧ { fl with ready := rest }.lane? f = some v := by
  obtain ⟨x, hx, rfl⟩ := lane?_eq_some.1 hv
  have hlane : { fl with ready := rest }.lane? f = some { fl.laneOf f x with
      ready :=
        rest.filterMap (Turn.item? f x.worker (standingAmong fl.workers f x.worker).1) } :=
    lane?_eq_some.2 ⟨x, hx, rfl⟩
  have hready : (fl.laneOf f x).ready =
      (t :: rest).filterMap (Turn.item? f x.worker (standingAmong fl.workers f x.worker).1) := by
    rw [← hr]
    rfl
  show (∃ i items, t.item? f x.worker (standingAmong fl.workers f x.worker).1 = some i ∧ _) ∨
    t.item? f x.worker (standingAmong fl.workers f x.worker).1 = none ∧ _
  cases hi : t.item? f x.worker (standingAmong fl.workers f x.worker).1 with
  | some i =>
    rw [List.filterMap_cons_some hi] at hready
    exact .inl ⟨i, _, rfl, hready, hlane⟩
  | none =>
    rw [List.filterMap_cons_none hi] at hready
    refine .inr ⟨rfl, ?_⟩
    rw [hlane, ← hready]

/-- What a turn does to the surroundings of a lane: no time passes, and the run stays
canceled. -/
theorem around_step (e : Engine) (hA : fl.Assigned) (hv : fl.lane? f = some v) (t : Turn) :
    (e.step t fl).around.now = v.around.now ∧
      (v.around.canceled = true → (e.step t fl).around.canceled = true) := by
  obtain ⟨ss, hshows⟩ := tells_step e hA t
  have haround : v.around = fl.around := around_of_lane hv
  rw [haround]
  refine ⟨hshows.now, fun hc => ?_⟩
  rw [hshows.canceled]
  simp [canceledAfter, hc]

/-- When a round begins, for a lane: no time passes as long as it has turns to come. -/
theorem clock_of_round (ready : fl.ready = []) (next : fl.nextRound = some fl')
    (hv : fl.lane? f = some v) : v.ready = [] ∧ v.around.now ≤ fl'.now ∧
      (v.later ≠ [] → fl'.now = v.around.now) := by
  have haround : v.around = fl.around := around_of_lane hv
  obtain ⟨x, hx, hlane⟩ := lane?_eq_some.1 hv
  refine ⟨?_, ?_, fun hlater => ?_⟩
  · rw [← hlane]
    show fl.ready.filterMap _ = []
    rw [ready]
    rfl
  · rw [haround, (nextRound_eq_some next).2.1]
    split
    · exact Timer.le_wakeTime _ _
    · exact Nat.le_refl _
  · have hne : fl.later ≠ [] := by
      intro hnil
      rw [← hlane] at hlater
      exact hlater (by simp [laneOf, hnil])
    rw [(nextRound_eq_some next).2.1, if_neg hne, haround]
    rfl

/-- The bell of a timeout is that of a timer of the flight, which was set when it was taken. -/
theorem overdue_of_bell (h : fl.Numbered) (hv : fl.lane? f = some v) {now : Nat}
    (hbell : .timeout ∈ (Timer.expired now fl.timers).1.filterMap (bell? f)) :
    v.flight.overdueAt now = true := by
  obtain ⟨x, hx, rfl⟩ := lane?_eq_some.1 hv
  obtain ⟨t, ht, hbell⟩ := List.mem_filterMap.1 hbell
  have halarm : t.alarm = .flight f .timeout := by
    unfold bell? at hbell
    split at hbell
    · rename_i g b ha
      split at hbell
      · rename_i hg
        rw [ha, hg, Option.some.inj hbell]
      · cases hbell
    · cases hbell
  obtain ⟨y, hy, hdue⟩ := h.timers t (Timer.mem_of_mem_expired.1 ht) f .timeout halarm
  rw [hx] at hy
  obtain rfl := Option.some.inj hy
  show x.overdueAt now = true
  rw [Flight.overdueAt, hdue rfl]
  exact Timer.hasCome_of_mem_expired ht

/-- **Every move is a move in every lane.** -/
theorem lane?_moves (h : fl.Numbered) (hm : e.Moves fl fl') (hv : fl.lane? f = some v) :
    ∃ v', fl'.lane? f = some v' ∧ v.Passes e v' := by
  cases hm with
  | @turn t rest ready other =>
    have hA : { fl with ready := rest }.Assigned := assigned_of_same h.assigned rfl rfl
    rcases lane?_pop ready hv with ⟨i, items, ht, hready, hlane⟩ | ⟨ht, hlane⟩
    · exact ⟨_, lane?_step_own e hlane ht, .own hready⟩
    · by_cases hstop : t = .stop
      · -- A lane from which the worker has gone already is not cut.
        subst hstop
        rcases lane?_stop e hlane with hcut | hcut
        · refine ⟨v, hcut, ?_⟩
          have hself := Lane.Passes.other (e := e) (v := v) (s := v.around) rfl id
          rwa [Lane.moveTo_self] at hself
        · exact ⟨v.cut, hcut, .cut⟩
      · obtain ⟨hnow, hcanceled⟩ := around_step e hA hlane t
        exact ⟨_, lane?_step_other e hA hlane ht hstop, .other hnow hcanceled⟩
  | round ready next =>
    obtain ⟨hready, hnow, hlater⟩ := clock_of_round ready next hv
    exact ⟨_, lane?_nextRound next hv, .round hready hnow hlater (overdue_of_bell h hv)⟩

/-- What a move does about the queue. -/
theorem deals_moves (h : fl.Orderly) (hm : e.Moves fl fl') : Deals e fl fl' := by
  cases hm with
  | turn ready other => exact deals_step e h.numbered h.staffed ready
  | round ready next =>
    have hfl' := (nextRound_eq_some next).2.2
    exact .keep (by rw [hfl']) (by rw [hfl'])

/-- A lane after a move is an old lane, or that of a job that was just taken. -/
theorem lane?_moves_back (h : fl.Orderly) (hm : e.Moves fl fl') {v' : Lane}
    (hv' : fl'.lane? f = some v') :
    (∃ v, fl.lane? f = some v ∧ v.Passes e v') ∨
    ∃ i w, f = fl.flights.length ∧ fl.queue = i :: fl'.queue ∧ fl.around.canceled = false ∧
      v' = Lane.launched i w fl.around := by
  obtain ⟨y, hy, -⟩ := lane?_eq_some.1 hv'
  have hlt' : f < fl'.flights.length := (List.getElem?_eq_some_iff.1 hy).1
  by_cases hlt : f < fl.flights.length
  · obtain ⟨v'', hv'', hpass⟩ := lane?_moves h.numbered hm
      (lane?_eq_some.2 ⟨fl.flights[f], List.getElem?_eq_getElem hlt, rfl⟩)
    rw [hv'] at hv''
    obtain rfl := Option.some.inj hv''
    exact .inl ⟨_, lane?_eq_some.2 ⟨fl.flights[f], List.getElem?_eq_getElem hlt, rfl⟩, hpass⟩
  · cases deals_moves h hm with
    | keep queue length => omega
    | @take i w queue running length lane =>
      have hf : f = fl.flights.length := by omega
      subst hf
      rw [hv'] at lane
      exact .inr ⟨i, w, rfl, queue, running, Option.some.inj lane⟩
    | drain canceled queue length refused => omega

/-! ## What holds in all lanes -/

/-- What holds in every lane; `f` is the number of the flight. -/
def Lanes (P : Nat → Lane → Prop) (fl : Floor σ) : Prop := ∀ f v, fl.lane? f = some v → P f v

theorem Orderly.leads (h : fl.Orderly) (hl : e.Leads fl fl') : fl'.Orderly :=
  hl.keeps (fun _ _ h hm => h.moves hm) h

/-- Flights stay on the floor. -/
theorem length_moves (h : fl.Orderly) (hm : e.Moves fl fl') :
    fl.flights.length ≤ fl'.flights.length := by
  cases deals_moves h hm with
  | keep queue length => omega
  | take queue running length lane => omega
  | drain canceled queue length refused => omega

variable {P : Nat → Lane → Prop}

/-- What a move keeps in a lane, and what holds in every new lane, holds after the move. -/
theorem Lanes.moves (hpass : ∀ f v v', P f v → v.Passes e v' → P f v')
    (hnew : ∀ i w s, s.canceled = false → P fl.flights.length (Lane.launched i w s))
    (horder : fl.Orderly) (hm : e.Moves fl fl') (h : fl.Lanes P) : fl'.Lanes P := by
  intro f v' hv'
  rcases lane?_moves_back horder hm hv' with ⟨v, hv, hstep⟩ | ⟨i, w, rfl, -, hc, rfl⟩
  · exact hpass f v v' (h f v hv) hstep
  · exact hnew i w _ hc

/-- **What a move keeps in a lane, and what holds in every new lane, holds along a run.** -/
theorem Lanes.leads (hpass : ∀ f v v', P f v → v.Passes e v' → P f v')
    (hnew : ∀ f i w s, fl.flights.length ≤ f → s.canceled = false → P f (Lane.launched i w s))
    (horder : fl.Orderly) (hl : e.Leads fl fl') (h : fl.Lanes P) : fl'.Lanes P := by
  have hrun := hl.keeps
    (P := fun m => m.Orderly ∧ fl.flights.length ≤ m.flights.length ∧ m.Lanes P) ?_
    ⟨horder, Nat.le_refl _, h⟩
  · exact hrun.2.2
  · rintro m m' ⟨ho, hlen, hlanes⟩ hm
    exact ⟨ho.moves hm, Nat.le_trans hlen (length_moves ho hm),
      hlanes.moves hpass (fun i w s hc => hnew _ i w s hlen hc) ho hm⟩

/-! ## Workers that are stopped -/

/-- A worker that was stopped stays so. -/
theorem Stopped.modify (h : fl.Stopped) {w : Nat} {k : Worker σ → Worker σ}
    (hworkers : fl'.workers = fl.workers.modify w k)
    (hk : ∀ worker, fl.workers[w]? = some worker → worker.duty = .done true →
      (k worker).duty = .done true) : fl'.Stopped := by
  obtain ⟨worker, hmem, hduty⟩ := h
  obtain ⟨u, hu⟩ := List.mem_iff_getElem?.1 hmem
  refine ⟨if w = u then k worker else worker, ?_, ?_⟩
  · rw [hworkers, List.mem_iff_getElem?]
    exact ⟨u, by rw [List.getElem?_modify, hu]; split <;> rfl⟩
  · split
    · rename_i hwu
      subst hwu
      exact hk worker hu hduty
    · exact hduty

/-- Another worker is stopped than the one that goes on. -/
theorem Stopped.of_busy {w : Nat} {worker : Worker σ} {k : Worker σ → Worker σ} (h : fl.Stopped)
    (get : fl.workers[w]? = some worker) (busy : worker.duty.isDone = false)
    (hworkers : fl'.workers = fl.workers.modify w k) : fl'.Stopped := by
  refine h.modify hworkers fun worker' get' hduty => ?_
  rw [get] at get'
  rw [Option.some.inj get', hduty] at busy
  cases busy

theorem Stopped.carries {w : Nat} {worker : Worker σ} {jobId : Text} {sq : Sequel}
    (h : fl.Stopped)
    (get : fl.workers[w]? = some worker) (busy : worker.duty.isDone = false)
    (hc : e.Carries w jobId fl sq fl') : fl'.Stopped := by
  cases hc with
  | stay => exact h
  | stop => exact h.of_busy get busy rfl
  | free seeks =>
    obtain ⟨k, hk, -⟩ := seeks.workers
    exact h.of_busy get busy hk

/-- A worker has a duty on one flight only. -/
theorem flight_unique {g : Nat} {u : Lane} (hv : fl.lane? f = some v) (hu : fl.lane? g = some u)
    (hp : v.post ≠ .away) (hq : u.post ≠ .away) (hw : u.flight.worker = v.flight.worker) :
    g = f := by
  obtain ⟨worker, hget, hpost, -⟩ := worker_of_lane hv hp
  obtain ⟨worker', hget', hpost', -⟩ := worker_of_lane hu hq
  rw [hw, hget] at hget'
  obtain rfl := Option.some.inj hget'
  rcases duty_of_postOn hpost hp with ⟨hduty, -⟩ | ⟨cause, hduty, -⟩
  · rcases duty_of_postOn hpost' hq with ⟨hduty', -⟩ | ⟨cause', hduty', -⟩
    · rw [hduty] at hduty'
      exact (Duty.watching.inj hduty').symm
    · rw [hduty] at hduty'
      cases hduty'
  · rcases duty_of_postOn hpost' hq with ⟨hduty', -⟩ | ⟨cause', hduty', -⟩
    · rw [hduty] at hduty'
      cases hduty'
    · rw [hduty] at hduty'
      exact (Duty.preempting.inj hduty').1.symm

/-- A worker that does something about a flight is not done. -/
theorem busy_of_lane (hv : fl.lane? f = some v) (hp : v.post ≠ .away) {worker : Worker σ}
    (get : fl.workers[v.flight.worker]? = some worker) : worker.duty.isDone = false := by
  obtain ⟨worker', get', hpost, -⟩ := worker_of_lane hv hp
  rw [get] at get'
  obtain rfl := Option.some.inj get'
  rcases duty_of_postOn hpost hp with ⟨hduty, -⟩ | ⟨cause, hduty, -⟩ <;> rw [hduty] <;> rfl

theorem Stopped.put (h : fl.Stopped) (hv : fl.lane? f = some v) {d : Desk} (hd : v.desk.Fits d) :
    (fl.put f d).Stopped := by
  refine h.modify (putBack f d fl).workers fun worker get hduty => ?_
  by_cases hp : d.post = .away
  · rw [hp]
    exact hduty
  · have hw : d.flight.worker = v.flight.worker := hd.worker
    rw [hw] at get
    have hbusy := busy_of_lane hv (fun ha => hp (hd.post.2 ha)) get
    rw [hduty] at hbusy
    cases hbusy

/-- Workers whose duties stay the same stay stopped. -/
theorem Stopped.of_duties (h : fl.Stopped)
    (hduty : fl'.workers.map Worker.duty = fl.workers.map Worker.duty) : fl'.Stopped := by
  obtain ⟨worker, hmem, hd⟩ := h
  have hmem' : Duty.done true ∈ fl'.workers.map Worker.duty := by
    rw [hduty]
    exact List.mem_map.2 ⟨worker, hmem, hd⟩
  obtain ⟨worker', hw', hd'⟩ := List.mem_map.1 hmem'
  exact ⟨worker', hw', hd'⟩

theorem Stopped.workerTurn (h : fl.Stopped) (hA : fl.Assigned) (e : Engine) (w : Nat) :
    (e.workerTurn w fl).Stopped := by
  have hidle : (Engine.idled w fl).Stopped := h.modify rfl fun _ _ hduty => hduty
  generalize hfl' : e.workerTurn w fl = fl'
  cases hfl' ▸ e.serves_workerTurn hA w with
  | missing get => exact h
  | rest get done => exact hidle
  | @stop worker get duty =>
    have hget : (Engine.idled w fl).workers[w]? = some { worker with call := .idle } := by
      simp [Engine.idled, modifyWorker, get]
    exact hidle.of_busy hget (by rw [duty]; rfl) rfl
  | @seek worker quick _ get busy off seeks =>
    have hget : (Engine.idled w fl).workers[w]? = some { worker with call := .idle } := by
      simp [Engine.idled, modifyWorker, get]
    obtain ⟨k, hk, -⟩ := seeks.workers
    exact hidle.of_busy hget busy hk
  | @tend worker f v _ get lane own post next =>
    have hlane := Engine.lane?_idled lane own
    have htends := v.tends_tend e post
    have hlput := lane?_put_self hlane (htends.fits post)
    rw [Lane.put_eq] at hlput
    have hw : (v.tend e).1.flight.worker = w := htends.worker.trans own
    obtain ⟨worker', get', -⟩ := worker_of_lane hlput htends.post
    have hbusy := busy_of_lane hlput htends.post get'
    simp only [Lane.worker_heard, hw] at get'
    exact (hidle.put hlane (htends.fits post)).carries get' hbusy next

theorem Stopped.step (h : fl.Stopped) (hA : fl.Assigned) (e : Engine) (t : Turn) :
    (e.step t fl).Stopped := by
  have hsteps := steps_step e t fl
  generalize e.step t fl = fl' at hsteps
  cases hsteps with
  | desk c lane => exact h.put lane (e.fits_cueTurn rfl rfl (call_of_away lane) c)
  | nobody => exact h
  | worker w => exact h.workerTurn hA e w
  | receiver _ _ _ duties => exact h.of_duties duties
  | stop _ _ _ duties => exact h.of_duties duties
  | _ => exact h.of_duties rfl

theorem Stopped.moves (h : fl.Stopped) (hn : fl.Numbered) (hm : e.Moves fl fl') :
    fl'.Stopped := by
  cases hm with
  | @turn t rest ready other =>
    have hpop : { fl with ready := rest }.Stopped := h
    exact hpop.step (assigned_of_same hn.assigned rfl rfl) e t
  | round ready next =>
    refine h.of_duties ?_
    rw [(nextRound_eq_some next).2.2]

end Floor

end Conveyor
