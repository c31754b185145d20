import Conveyor.Proofs.Schedule.Between
import Conveyor.Proofs.Schedule.Lane

/-!
# Turns on the floor, seen from a lane

Every turn on the floor is, for each flight, either a turn in its lane or none of its business.
In the second case the lane stays as it is, except that the run may be canceled meanwhile, or the
worker interrupted.

- `Floor.lane?_step_own`: **a turn that concerns a flight is a turn in its lane**.
- `Floor.lane?_step_other`: **a turn that does not concern it leaves its lane alone**.
- `Floor.lane?_stop`: stopping the schedule interrupts the workers.
- `Floor.lane?_nextRound`: the next round, with the timers of the flight that go off.
-/

namespace Conveyor

variable {σ : Type}

namespace Floor

variable {f : Nat} {fl : Floor σ} {v : Lane}

/-! ## Desks and lanes -/

/-- The desk of a flight shows its lane. -/
theorem desk?_of_lane (hv : fl.lane? f = some v) : fl.desk? f = some v.desk := by
  obtain ⟨x, hx, rfl⟩ := lane?_eq_some.1 hv
  rw [desk?, hx]
  rfl

/-- Without a lane there is no desk. -/
theorem desk?_of_no_lane (hv : fl.lane? f = none) : fl.desk? f = none := by
  rw [lane?, Option.map_eq_none_iff] at hv
  rw [desk?, hv]
  rfl

theorem length_of_lane (hv : fl.lane? f = some v) : f < fl.flights.length := by
  obtain ⟨x, hx, -⟩ := lane?_eq_some.1 hv
  exact (List.getElem?_eq_some_iff.1 hx).1

/-- A worker that is away is not called. -/
theorem call_of_away (hv : fl.lane? f = some v) (h : v.post = .away) : v.call = .idle := by
  obtain ⟨x, hx, rfl⟩ := lane?_eq_some.1 hv
  exact congrArg Prod.snd (standingAmong_away h)

/-- In the lane of a flight whose worker is away, no turn of a worker is to come. -/
theorem worker_not_mem_of_away (hv : fl.lane? f = some v) (h : v.post = .away) :
    .worker ∉ v.ready ∧ .worker ∉ v.later := by
  obtain ⟨x, hx, rfl⟩ := lane?_eq_some.1 hv
  have hpost : (standingAmong fl.workers f x.worker).1 = .away := h
  have hnone : ∀ ts : List Turn, Item.worker ∉
      ts.filterMap (Turn.item? f x.worker (standingAmong fl.workers f x.worker).1) := by
    intro ts hmem
    obtain ⟨t, -, ht⟩ := List.mem_filterMap.1 hmem
    rw [hpost] at ht
    cases t <;> simp [Turn.item?] at ht
  exact ⟨hnone fl.ready, hnone fl.later⟩

/-- A lane that the worker has left already. -/
theorem retire_of_away (hv : fl.lane? f = some v) (h : v.post = .away) : v.retire = v := by
  obtain ⟨hr, hl⟩ := worker_not_mem_of_away hv h
  have hc := call_of_away hv h
  have hfilter : ∀ is : List Item, Item.worker ∉ is → is.filter (fun i => i ≠ .worker) = is := by
    intro is his
    refine List.filter_eq_self.2 fun i hi => decide_eq_true ?_
    rintro rfl
    exact his hi
  rw [Lane.retire, hfilter _ hr, hfilter _ hl, ← hc, ← h]

/-! ## Workers go on to other duties -/

/-- A worker gets a duty that is not on this flight. -/
theorem lane?_reassign {w : Nat} {k : Worker σ → Worker σ}
    (hk : ∀ worker, fl.workers[w]? = some worker → (k worker).duty.postOn f = .away)
    (hv : fl.lane? f = some v) :
    { fl with workers := fl.workers.modify w k }.lane? f =
      some (if v.flight.worker = w then v.retire else v) := by
  obtain ⟨x, hx, rfl⟩ := lane?_eq_some.1 hv
  refine lane?_eq_some.2 ⟨x, hx, ?_⟩
  by_cases hw : x.worker = w
  · have haway : standingAmong (fl.workers.modify w k) f x.worker = (.away, .idle) := by
      subst hw
      cases hg : fl.workers[x.worker]? with
      | none => simp [standingAmong, hg]
      | some worker => simp [standingAmong, hg, Worker.standing, hk worker hg]
    have hitems : ∀ ts : List Turn,
        ts.filterMap (Turn.item? f x.worker .away) =
          (ts.filterMap (Turn.item? f x.worker (standingAmong fl.workers f x.worker).1)).filter
            fun i => i ≠ .worker := by
      intro ts
      induction ts with
      | nil => rfl
      | cons t ts ih =>
        rw [List.filterMap_cons, List.filterMap_cons, ih]
        cases t with
        | flight g c =>
          by_cases hg : g = f
          · simp [Turn.item?, hg]
          · simp [Turn.item?, hg]
        | worker u =>
          by_cases hu : u = x.worker ∧ (standingAmong fl.workers f x.worker).1 ≠ .away
          · simp [Turn.item?, hu]
          · simp [Turn.item?, hu]
        | receiver u => simp [Turn.item?]
        | workerDone u => simp [Turn.item?]
        | scheduler => simp [Turn.item?]
        | errand act => simp [Turn.item?]
        | stop => simp [Turn.item?]
    rw [if_pos (show (fl.laneOf f x).flight.worker = w from hw)]
    unfold laneOf Lane.retire
    rw [haway]
    simp only [hitems]
  · rw [if_neg (show (fl.laneOf f x).flight.worker ≠ w from hw)]
    unfold laneOf
    rw [standingAmong_modify_other (Ne.symm hw)]

/-- A turn that is called is to come in the lanes that it concerns. -/
theorem lane?_push (hv : fl.lane? f = some v) (t : Turn) :
    (fl.push t).lane? f =
      some (match t.item? f v.flight.worker v.post with
        | some i => v.push i
        | none => v) := by
  obtain ⟨x, hx, rfl⟩ := lane?_eq_some.1 hv
  exact lane?_eq_some.2 ⟨x, hx, laneOf_push f x t fl⟩

/-- A turn that concerns no flight is nothing to a lane. -/
theorem lane?_push_none (hv : fl.lane? f = some v) {t : Turn}
    (ht : ∀ w post, t.item? f w post = none) : (fl.push t).lane? f = some v := by
  rw [lane?_push hv, ht]

theorem lane?_setTimer (span : Span) (a : Alarm) :
    (fl.setTimer span a).lane? f = fl.lane? f := by
  cases span <;> rfl

/-- A worker is done. -/
theorem lane?_endWorker (hv : fl.lane? f = some v) (w : Nat) (stopped : Bool) :
    (Engine.endWorker w stopped fl).lane? f =
    some (if v.flight.worker = w then v.retire else v) :=
  lane?_push_none (lane?_reassign (fun _ _ => rfl) hv) fun _ _ => rfl

theorem lane?_see_other {g : Option Nat} (hne : g ≠ some f) (ns : List Note) :
    (fl.see g ns).lane? f = fl.lane? f := by
  unfold lane? laneOf
  rw [seenOf_see_other hne]
  rfl

/-- Another job is taken. -/
theorem lane?_launch (hv : fl.lane? f = some v) (w : Nat) (i : JobInstance) :
    (Engine.launch w i fl).lane? f = some (if v.flight.worker = w then v.retire else v) := by
  obtain ⟨x, hx, rfl⟩ := lane?_eq_some.1 hv
  have hlt : f < fl.flights.length := (List.getElem?_eq_some_iff.1 hx).1
  have hne : fl.flights.length ≠ f := by omega
  have hseen : (fl.see (some fl.flights.length) [.log .debug (Engine.pickUpMessage w i)]).lane?
      f =
      some (fl.laneOf f x) := by rw [lane?_see_other (by simpa using hne), hv]
  have hgrown : { fl.see (some fl.flights.length) [.log .debug (Engine.pickUpMessage w i)] with
      flights := fl.flights ++ [Flight.launch i w fl.now] }.lane? f = some (fl.laneOf f x) := by
    obtain ⟨y, hy, hl⟩ := lane?_eq_some.1 hseen
    exact lane?_eq_some.2 ⟨y, by rwa [List.getElem?_append_left hlt], hl⟩
  have htaken := lane?_reassign (w := w)
    (k := fun x => { x with duty := .watching fl.flights.length })
    (fun _ _ => by simp [Duty.postOn, hne]) hgrown
  unfold Engine.launch
  dsimp only
  rw [lane?_setTimer]
  refine lane?_push_none (lane?_push_none htaken fun _ _ => ?_) fun _ _ => ?_
  · simp [Turn.item?, hne]
  · simp [Turn.item?, hne]

/-- What is seen of no flight is nothing to a lane. -/
theorem lane?_cleared (rest : List JobInstance) (m : σ) (ns : List Note) :
    (fl.cleared rest m ns).lane? f = fl.lane? f := by
  have hleft : { fl with queue := rest, memory := m }.lane? f = fl.lane? f := rfl
  have hother : (none : Option Nat) ≠ some f := by simp
  exact (lane?_see_other hother ns).trans hleft

/-- A worker does something about a flight iff it has a duty on it. -/
theorem standingAmong_ne_away {ws : List (Worker σ)} {f w : Nat} :
    (standingAmong ws f w).1 ≠ .away ↔
      ∃ worker, ws[w]? = some worker ∧ worker.duty.postOn f ≠ .away := by
  unfold standingAmong
  cases hw : ws[w]? with
  | none => simp
  | some worker =>
    simp only [Option.map_some, Option.getD_some, Worker.standing, Option.some.injEq,
      exists_eq_left']
    cases hd : worker.duty.postOn f <;> simp

/-- The worker of a flight is away that has no duty on it. -/
theorem post_of_off (hv : fl.lane? f = some v) {w : Nat} {worker : Worker σ}
    (hget : fl.workers[w]? = some worker) (hoff : worker.duty.postOn f = .away)
    (hw : v.flight.worker = w) : v.post = .away := by
  obtain ⟨x, hx, rfl⟩ := lane?_eq_some.1 hv
  have hxw : x.worker = w := hw
  show (standingAmong fl.workers f x.worker).1 = .away
  rw [hxw]
  simp [standingAmong, hget, Worker.standing, hoff]

/-- The turn of a worker that waits for the receiver is nothing to a lane. -/
theorem lane?_callTeller (hv : fl.lane? f = some v) (w : Nat) :
    (fl.callTeller w).lane? f = some v := by
  rcases fl.callTeller_eq w with hsame | ⟨worker, hget, hwaits, -, hcalls⟩
  · rw [hsame, hv]
  · -- The worker has no duty on the flight.
    have hoff := Duty.postOn_of_hasWaited hwaits f
    have hoff' : ∀ x, fl.workers[w]? = some x →
        ({ x with call := .called } : Worker σ).duty.postOn f = .away := by
      intro x hx
      rw [hget] at hx
      rw [← Option.some.inj hx]
      exact hoff
    have haway := post_of_off hv hget hoff
    have hitem : Turn.item? f v.flight.worker v.post (.worker w) = none :=
      if_neg fun h => h.2 (haway h.1.symm)
    have hcalled := lane?_reassign hoff' hv
    have hsame : (if v.flight.worker = w then v.retire else v) = v := by
      split
      · rename_i hw
        exact retire_of_away hv (haway hw)
      · rfl
    rw [hsame] at hcalled
    rw [hcalls]
    refine (lane?_push hcalled _).trans ?_
    rw [hitem]

/-- A worker waits for the receiver. -/
theorem lane?_attend (hv : fl.lane? f = some v) (w : Nat) (jobId : Text) (span : Nat)
    (next : Bool → Reception σ) :
    (Engine.attend w jobId span next fl).lane? f =
      some (if v.flight.worker = w then v.retire else v) := by
  have hwaits := lane?_reassign (w := w)
    (k := fun x => { x with duty := .telling jobId (fl.now + span) next }) (fun _ _ => rfl) hv
  unfold Engine.attend
  dsimp only
  split
  · exact lane?_callTeller hwaits w
  · rw [lane?_setTimer]
    exact hwaits

/-- **A worker leaves its flight when it looks for the next job.** -/
theorem lane?_seeks {e : Engine} {w : Nat} {told : Option Text} {quick : Bool} {fl' : Floor σ}
    (h : e.Seeks w told fl quick fl') (hv : fl.lane? f = some v) :
    fl'.lane? f = some (if v.flight.worker = w then v.retire else v) := by
  have hcleared : ∀ rest m ns, (fl.cleared rest m ns).lane? f = some v :=
    fun rest m ns => (lane?_cleared rest m ns).trans hv
  cases h with
  | leave passes => exact lane?_endWorker (hcleared ..) w false
  | take passes running => exact lane?_launch (hcleared ..) w _
  | stop passes => exact lane?_endWorker (hcleared ..) w true
  | wait passes => exact lane?_attend (hcleared ..) w _ _ _

/-- After a turn of a worker, its flight is left unless it stays. -/
theorem lane?_carryOn (e : Engine) (w : Nat) (d : Desk) (sq : Sequel) (hv : fl.lane? f =
    some v) :
    (e.carryOn w d fl sq).lane? f =
      some (if sq ≠ .stay ∧ v.flight.worker = w then v.retire else v) := by
  cases sq with
  | stay => simpa [Engine.carryOn] using hv
  | free status =>
    obtain ⟨quick, hseeks, -⟩ := e.seeks_tell w (e.resultOf status d) fl
    simpa [Engine.carryOn] using lane?_seeks hseeks hv
  | stop => simpa [Engine.carryOn] using lane?_endWorker hv w true

/-! ## Turns of workers -/

/-- The worker of a flight, which does something about it. -/
theorem worker_of_lane (hv : fl.lane? f = some v) (hp : v.post ≠ .away) :
    ∃ worker, fl.workers[v.flight.worker]? = some worker ∧ worker.duty.postOn f = v.post ∧
      worker.call = v.call := by
  obtain ⟨x, hx, rfl⟩ := lane?_eq_some.1 hv
  have hp' : (standingAmong fl.workers f x.worker).1 ≠ .away := hp
  show ∃ worker, fl.workers[x.worker]? = some worker ∧
    worker.duty.postOn f = (standingAmong fl.workers f x.worker).1 ∧
    worker.call = (standingAmong fl.workers f x.worker).2
  unfold standingAmong at hp' ⊢
  cases hw : fl.workers[x.worker]? with
  | none => simp [hw] at hp'
  | some worker =>
    refine ⟨worker, rfl, ?_⟩
    simp only [hw, Option.map_some, Option.getD_some, Worker.standing] at hp' ⊢
    split at hp'
    · exact absurd rfl hp'
    · exact ⟨rfl, rfl⟩

/-- A worker that has a turn is no longer called. -/
theorem lane?_idle (hv : fl.lane? f = some v) (w : Nat) :
    (fl.modifyWorker w fun x => { x with call := .idle }).lane? f =
      some (if v.flight.worker = w then { v with call := .idle } else v) := by
  obtain ⟨x, hx, rfl⟩ := lane?_eq_some.1 hv
  refine lane?_eq_some.2 ⟨x, hx, ?_⟩
  by_cases hw : x.worker = w
  · have hstand : standingAmong (fl.workers.modify w fun x => { x with call := .idle }) f
        x.worker =
        ((standingAmong fl.workers f x.worker).1, .idle) := by
      subst hw
      cases hg : fl.workers[x.worker]? with
      | none => simp [standingAmong, hg]
      | some worker =>
        cases hd : worker.duty.postOn f <;> simp [standingAmong, hg, Worker.standing, hd]
    rw [if_pos (show (fl.laneOf f x).flight.worker = w from hw)]
    unfold laneOf modifyWorker
    rw [hstand]
  · rw [if_neg (show (fl.laneOf f x).flight.worker ≠ w from hw)]
    unfold laneOf modifyWorker
    rw [standingAmong_modify_other (Ne.symm hw)]

/-- The duty of a worker that does something about a flight. -/
theorem duty_of_postOn {duty : Duty σ} {post : Post} (h : duty.postOn f = post) (hp : post ≠
    .away) :
    duty = .watching f ∧ post = .watching ∨
      ∃ cause, duty = .preempting f cause ∧ post = .preempting cause := by
  cases duty with
  | fresh => exact absurd h.symm hp
  | telling jobId due next => exact absurd h.symm hp
  | done stopped => exact absurd h.symm hp
  | watching g =>
    by_cases hg : g = f
    · subst hg
      exact .inl ⟨rfl, by simpa [Duty.postOn] using h.symm⟩
    · rw [Duty.postOn, if_neg hg] at h
      exact absurd h.symm hp
  | preempting g cause =>
    by_cases hg : g = f
    · subst hg
      exact .inr ⟨cause, rfl, by simpa [Duty.postOn] using h.symm⟩
    · rw [Duty.postOn, if_neg hg] at h
      exact absurd h.symm hp

/-- A turn of a worker on its job, seen from the lane of the job. -/
theorem lane?_workOn_self (e : Engine) (hv : fl.lane? f = some v) (turn : Desk → Desk × Sequel)
    (ht : v.desk.Fits (turn v.desk).1) :
    (e.workOn v.flight.worker f turn fl).lane? f = some (v.after (turn v.desk)) := by
  rw [Engine.workOn, desk?_of_lane hv]
  have hput := lane?_put_self hv ht
  have hw : (v.put (turn v.desk).1).flight.worker = v.flight.worker :=
    (Lane.worker_put _ v).trans ht.worker
  have hgo := lane?_carryOn e v.flight.worker (turn v.desk).1 (turn v.desk).2 hput
  simp only [hw, and_true] at hgo
  dsimp only
  rw [hgo, Lane.after]
  cases (turn v.desk).2 <;> rfl

/-- A turn of a worker on its job, seen from the lane of another job. -/
theorem lane?_workOn_other (e : Engine) {g w : Nat} {u : Lane} (hu : fl.lane? g = some u)
    {turn : Desk → Desk × Sequel} (ht : u.desk.Fits (turn u.desk).1)
    (ha : (turn u.desk).1.around = u.around) (hne : f ≠ g) (hv : fl.lane? f = some v)
    (hw : v.flight.worker = w → v.post = .away) :
    (e.workOn w g turn fl).lane? f = some v := by
  have haround : u.around = v.around := by
    obtain ⟨x, hx, rfl⟩ := lane?_eq_some.1 hu
    obtain ⟨y, hy, rfl⟩ := lane?_eq_some.1 hv
    rfl
  have hput := lane?_put_other hu ht hne
  rw [hv, Option.map_some, ha, haround, Lane.moveTo_self] at hput
  have hgo := lane?_carryOn e w (turn u.desk).1 (turn u.desk).2 hput
  rw [Engine.workOn, desk?_of_lane hu]
  dsimp only
  rw [hgo]
  split
  · rename_i h
    rw [retire_of_away hv (hw h.2)]
  · rfl

/-- **A turn of the worker of a flight is a turn in its lane.** -/
theorem lane?_workerTurn_own (e : Engine) (hv : fl.lane? f = some v) (hp : v.post ≠ .away) :
    (e.workerTurn v.flight.worker fl).lane? f = some (v.workerTurn e) := by
  obtain ⟨worker, hw, hpost, hcall⟩ := worker_of_lane hv hp
  have hidle := lane?_idle hv v.flight.worker
  rw [if_pos rfl] at hidle
  rw [Engine.workerTurn, hw]
  dsimp only
  rcases duty_of_postOn hpost hp with ⟨hduty, hwatch⟩ | ⟨cause, hduty, hpre⟩
  · have ht := lane?_workOn_self e hidle (e.afterWatching (v.call = .cut))
      ((e.tends_afterWatching hp rfl rfl _).fits hp)
    rw [hwatch] at ht
    rw [hduty, hcall, Lane.workerTurn, hwatch]
    exact ht
  · have ht := lane?_workOn_self e hidle (e.afterPreempting cause (v.call = .cut))
      ((e.tends_afterPreempting hp rfl rfl cause _).fits hp)
    rw [hpre] at ht
    rw [hduty, hcall, Lane.workerTurn, hpre]
    exact ht

/-- A worker that has a duty on a flight took it. -/
theorem lane?_of_duty (h : fl.Assigned) {w : Nat} {worker : Worker σ}
    (hw : fl.workers[w]? = some worker) (hd : worker.duty.postOn f ≠ .away) :
    ∃ v, fl.lane? f = some v ∧ v.flight.worker = w ∧ v.post = worker.duty.postOn f ∧
      v.call = worker.call := by
  obtain ⟨x, hx, hxw⟩ := h f w (standingAmong_ne_away.2 ⟨worker, hw, hd⟩)
  refine ⟨fl.laneOf f x, lane?_eq_some.2 ⟨x, hx, rfl⟩, hxw, ?_, ?_⟩
  · show (standingAmong fl.workers f x.worker).1 = _
    simp only [hxw, standingAmong, hw, Option.map_some, Option.getD_some, Worker.standing]
  · show (standingAmong fl.workers f x.worker).2 = _
    simp only [hxw, standingAmong, hw, Option.map_some, Option.getD_some, Worker.standing]

/-- **A turn of a worker is nothing to the lanes of flights about which it does nothing.** -/
theorem lane?_workerTurn_other (e : Engine) (hA : fl.Assigned) (hv : fl.lane? f = some v)
    {w : Nat}
    (hw : v.flight.worker = w → v.post = .away) : (e.workerTurn w fl).lane? f = some v := by
  rw [Engine.workerTurn]
  cases hworker : fl.workers[w]? with
  | none => exact hv
  | some worker =>
    have hsame : (if v.flight.worker = w then { v with call := .idle } else v : Lane) = v := by
      split
      · rename_i h
        rw [← call_of_away hv (hw h)]
      · rfl
    have hidle := lane?_idle hv w
    rw [hsame] at hidle
    have hleft : (if v.flight.worker = w then v.retire else v) = v := by
      split
      · rename_i h
        exact retire_of_away hv (hw h)
      · rfl
    -- The flight on which the worker has its duty is another one.
    have hother : ∀ g, worker.duty.postOn g ≠ .away → f ≠ g := by
      rintro g hg rfl
      obtain ⟨u, hu, huw, hpost, -⟩ := lane?_of_duty hA hworker hg
      rw [hv] at hu
      obtain rfl := Option.some.inj hu
      exact hg (hpost.symm.trans (hw huw))
    have hown : ∀ g, worker.duty.postOn g ≠ .away → ∃ u,
        (fl.modifyWorker w fun x => { x with call := .idle }).lane? g = some u ∧
          u.post ≠ .away := by
      intro g hg
      obtain ⟨u, hu, huw, hpost, -⟩ := lane?_of_duty hA hworker hg
      have hidle' := lane?_idle hu w
      rw [if_pos huw] at hidle'
      exact ⟨_, hidle', fun haway => hg (hpost.symm.trans haway)⟩
    dsimp only
    cases hduty : worker.duty with
    | fresh =>
      dsimp only
      split
      · rw [lane?_endWorker hidle w true, hleft]
      · obtain ⟨quick, hseeks, -⟩ := e.seeks_queue w
          (fl.modifyWorker w fun x => { x with call := .idle })
        rw [lane?_seeks hseeks hidle, hleft]
    | telling jobId due next =>
      obtain ⟨quick, hseeks, -⟩ := (e.hears_proceed w jobId
        (fl.modifyWorker w fun x => { x with call := .idle })
        (next (worker.call = .cut))).seeks_resume
      exact (lane?_seeks hseeks hidle).trans (congrArg some hleft)
    | watching g =>
      have hg : worker.duty.postOn g ≠ .away := by simp [hduty, Duty.postOn]
      obtain ⟨u, hu, hp⟩ := hown g hg
      have ht := e.tends_afterWatching (d := u.desk) hp rfl rfl (worker.call = .cut)
      exact lane?_workOn_other e hu (ht.fits hp) ht.around (hother g hg) hidle hw
    | preempting g cause =>
      have hg : worker.duty.postOn g ≠ .away := by simp [hduty, Duty.postOn]
      obtain ⟨u, hu, hp⟩ := hown g hg
      have ht := e.tends_afterPreempting (d := u.desk) hp rfl rfl cause (worker.call = .cut)
      exact lane?_workOn_other e hu (ht.fits hp) ht.around (hother g hg) hidle hw
    | done stopped => exact hidle

/-! ## Turns on the floor -/

theorem lane?_callScheduler : fl.callScheduler.lane? f = fl.lane? f := by
  unfold callScheduler
  split
  · cases hv : fl.lane? f with
    | none =>
      rw [lane?, Option.map_eq_none_iff] at hv ⊢
      exact hv
    | some v =>
      have hv' : { fl with schedulerCall := .called }.lane? f = some v := hv
      exact lane?_push_none hv' fun _ _ => rfl
  · rfl

/-- **A turn that concerns a flight is a turn in its lane.** -/
theorem lane?_step_own (e : Engine) (hv : fl.lane? f = some v) {t : Turn} {i : Item}
    (ht : t.item? f v.flight.worker v.post = some i) :
    (e.step t fl).lane? f = some (v.turn e i) := by
  cases t with
  | flight g c =>
    by_cases hg : g = f
    · subst hg
      rw [Turn.item?, if_pos rfl] at ht
      cases ht
      rw [Engine.step, atDesk, desk?_of_lane hv]
      exact lane?_put_self hv (e.fits_cueTurn rfl rfl (call_of_away hv) c)
    · rw [Turn.item?, if_neg hg] at ht
      cases ht
  | worker w =>
    by_cases hw : w = v.flight.worker ∧ v.post ≠ .away
    · rw [Turn.item?, if_pos hw] at ht
      cases ht
      rw [Engine.step, hw.1]
      exact lane?_workerTurn_own e hv hw.2
    · rw [Turn.item?, if_neg hw] at ht
      cases ht
  | receiver w => cases ht
  | workerDone w => cases ht
  | scheduler => cases ht
  | errand act => cases ht
  | stop => cases ht

/-- The surroundings in a lane are those of the floor. -/
theorem around_of_lane (hv : fl.lane? f = some v) : v.around = fl.around := by
  obtain ⟨x, hx, rfl⟩ := lane?_eq_some.1 hv
  rfl

/-- **A turn that does not concern a flight leaves its lane alone**; at most, the run is
canceled. -/
theorem lane?_step_other (e : Engine) (hA : fl.Assigned) (hv : fl.lane? f = some v) {t : Turn}
    (ht : t.item? f v.flight.worker v.post = none) (hstop : t ≠ .stop) :
    (e.step t fl).lane? f = some (v.moveTo (e.step t fl).around) := by
  -- It is enough that the lane moves to some surroundings: they are those of the floor.
  suffices h : ∃ s, (e.step t fl).lane? f = some (v.moveTo s) by
    obtain ⟨s, hs⟩ := h
    have haround := around_of_lane hs
    rw [Lane.around_moveTo] at haround
    rw [hs, haround]
  have hsame : some v = some (v.moveTo v.around) := by rw [Lane.moveTo_self]
  cases t with
  | flight g c =>
    have hne : f ≠ g := by
      rintro rfl
      simp [Turn.item?] at ht
    cases hu : fl.lane? g with
    | none =>
      refine ⟨v.around, ?_⟩
      rw [Engine.step, atDesk, desk?_of_no_lane hu, ← hsame]
      exact hv
    | some u =>
      have hput := lane?_put_other hu (e.fits_cueTurn rfl rfl (call_of_away hu) c) hne
      rw [hv, Option.map_some] at hput
      refine ⟨(e.cueTurn c u.desk).around, ?_⟩
      rw [Engine.step, atDesk, desk?_of_lane hu]
      exact hput
  | worker w =>
    refine ⟨v.around, ?_⟩
    rw [← hsame]
    refine lane?_workerTurn_other e hA hv fun hw => ?_
    by_cases hp : v.post = .away
    · exact hp
    · simp [Turn.item?, hw.symm, hp] at ht
  | receiver w => exact ⟨v.around, hsame ▸ lane?_callTeller hv w⟩
  | workerDone w =>
    refine ⟨v.around, ?_⟩
    rw [← hsame, Engine.step, workerDoneTurn]
    dsimp only
    split
    · rw [lane?_callScheduler]
      exact hv
    · split
      · rw [lane?_callScheduler]
        exact hv
      · exact hv
  | scheduler => exact ⟨v.around, hsame ▸ hv⟩
  | errand act =>
    refine ⟨(act.proceed fl.around).around, ?_⟩
    rw [Engine.step, disturb, lane?_moveTo, lane?_see_other (by simp), hv]
    rfl
  | stop => exact absurd rfl hstop

/-! ## Stopping the schedule -/

/-- Only the worker that is interrupted learns of it. -/
theorem lane?_modifyCut (hv : fl.lane? f = some v) (w : Nat) :
    (fl.modifyWorker w fun x => { x with call := .cut }).lane? f =
      some (if v.flight.worker = w ∧ v.post ≠ .away then { v with call := .cut } else v) := by
  obtain ⟨x, hx, rfl⟩ := lane?_eq_some.1 hv
  refine lane?_eq_some.2 ⟨x, hx, ?_⟩
  unfold laneOf modifyWorker
  by_cases hw : x.worker = w
  · subst hw
    cases hg : fl.workers[x.worker]? with
    | none => simp [standingAmong, hg]
    | some worker =>
      cases hd : worker.duty.postOn f <;> simp [standingAmong, hg, Worker.standing, hd]
  · simp only [standingAmong_modify_other (Ne.symm hw), hw, false_and, if_false]

/-- A worker is interrupted. -/
theorem lane?_cutWorker (hv : fl.lane? f = some v) (w : Nat) :
    (fl.cutWorker w).lane? f = some (if v.flight.worker = w then v.cut else v) := by
  -- A worker that does nothing about the flight is nothing to its lane.
  have hnone : (v.flight.worker = w → v.post = .away) →
      (if v.flight.worker = w then v.cut else v) = v := by
    intro hp
    split
    · rename_i h
      exact Lane.cut_of_away (hp h)
    · rfl
  have hcut := lane?_modifyCut hv w
  unfold cutWorker
  by_cases hmine : v.flight.worker = w ∧ v.post ≠ .away
  · obtain ⟨rfl, hp⟩ := hmine
    obtain ⟨worker, hw, hpost, hcall⟩ := worker_of_lane hv hp
    have hdone : worker.duty.isDone = false := by
      rcases duty_of_postOn hpost hp with ⟨hd, -⟩ | ⟨cause, hd, -⟩ <;> rw [hd] <;> rfl
    rw [if_pos ⟨rfl, hp⟩] at hcut
    simp only [hw, hdone, hcall, Bool.false_eq_true, if_false, if_true]
    by_cases hc : v.call = .idle
    · rw [Lane.cut_of_idle hp hc, if_pos hc, lane?_push hcut]
      simp [Turn.item?, hp]
    · rw [Lane.cut_of_called hp hc, if_neg hc]
      exact hcut
  · rw [if_neg hmine] at hcut
    have hp : v.flight.worker = w → v.post = .away := by
      intro hw
      by_cases ha : v.post = .away
      · exact ha
      · exact absurd ⟨hw, ha⟩ hmine
    rw [hnone hp]
    cases fl.workers[w]? with
    | none => exact hv
    | some worker =>
      dsimp only
      split
      · exact hv
      · split
        · have hitem : Turn.item? f v.flight.worker v.post (.worker w) = none := by
            rw [Turn.item?, if_neg]
            rintro ⟨h, hna⟩
            exact hna (hp h.symm)
          rw [lane?_push hcut, hitem]
        · exact hcut

theorem cut_cut (v : Lane) : v.cut.cut = v.cut := by
  by_cases hp : v.post = .away
  · rw [Lane.cut_of_away hp, Lane.cut_of_away hp]
  · by_cases hc : v.call = .idle
    · simp [Lane.cut, hp, hc, Lane.push]
    · simp [Lane.cut, hp, hc]

/-- Stopping the schedule interrupts the worker of a flight, or comes too late for that. -/
theorem lane?_stop (e : Engine) (hv : fl.lane? f = some v) :
    (e.step .stop fl).lane? f = some v ∨ (e.step .stop fl).lane? f = some v.cut := by
  have hall : ∀ (ws : List Nat) (fl : Floor σ), (fl.lane? f = some v ∨ fl.lane? f = some v.cut) →
      (ws.foldl (fun fl w => fl.cutWorker w) fl).lane? f = some v ∨
        (ws.foldl (fun fl w => fl.cutWorker w) fl).lane? f = some v.cut := by
    intro ws
    induction ws with
    | nil => exact fun fl h => h
    | cons w ws ih =>
      intro fl h
      refine ih (fl.cutWorker w) ?_
      rcases h with h | h
      · rw [lane?_cutWorker h w]
        split
        · exact .inr rfl
        · exact .inl rfl
      · rw [lane?_cutWorker h w, cut_cut]
        split
        · exact .inr rfl
        · exact .inr rfl
  rw [Engine.step, stopTurn]
  split
  · exact hall _ fl (.inl hv)
  · exact .inl hv

/-! ## The next round -/

/-- What a timer is to a flight. -/
def bell? (f : Nat) (t : Timer) : Option Bell :=
  match t.alarm with
  | .flight g b => if g = f then some b else none
  | _ => none

/-- The next round, if there is one. -/
theorem nextRound_eq_some {fl' : Floor σ} (h : fl.nextRound = some fl') :
    (fl.later = [] → fl.timers ≠ []) ∧
    fl'.now = (if fl.later = [] then Timer.wakeTime fl.now fl.timers else fl.now) ∧
    fl' =
      { fl with
        around := { fl.around with now := fl'.now }
        ready := fl.later ++ (Timer.expired fl'.now fl.timers).1.map fun t => t.alarm.turn
        later := []
        timers := (Timer.expired fl'.now fl.timers).2 } := by
  unfold nextRound at h
  split at h
  · cases h
  · rename_i hne
    cases h
    refine ⟨fun hl ht => hne (by simp [hl, ht]), ?_, rfl⟩
    simp [now]

/-- **The next round, seen from a lane**: the turns that were called, then the timers of the
flight that go off. -/
theorem lane?_nextRound {fl' : Floor σ} (h : fl.nextRound = some fl') (hv : fl.lane? f =
    some v) :
    fl'.lane? f =
      some (v.tick fl'.now ((Timer.expired fl'.now fl.timers).1.filterMap (bell? f))) := by
  obtain ⟨x, hx, rfl⟩ := lane?_eq_some.1 hv
  have hturn : ∀ (post : Post) (t : Timer),
      Turn.item? f x.worker post t.alarm.turn = (bell? f t).map fun b => .cue (.bell b) := by
    intro post t
    unfold bell?
    cases t.alarm with
    | flight g b => by_cases hg : g = f <;> simp [Alarm.turn, Turn.item?, hg]
    | receiver w => rfl
    | errand act => rfl
    | stop => rfl
  obtain ⟨-, -, hfl'⟩ := nextRound_eq_some h
  generalize fl'.now = time at hfl'
  subst hfl'
  refine lane?_eq_some.2 ⟨x, hx, ?_⟩
  have hbells : ∀ (post : Post) (ts : List Timer),
      (ts.map fun t => t.alarm.turn).filterMap (Turn.item? f x.worker post) =
        (ts.filterMap (bell? f)).map fun b => .cue (.bell b) := by
    intro post ts
    rw [List.filterMap_map, List.map_filterMap]
    exact congrArg (List.filterMap · ts) (funext fun t => hturn post t)
  simp [laneOf, Lane.tick, List.filterMap_append, hbells]

end Floor

end Conveyor
