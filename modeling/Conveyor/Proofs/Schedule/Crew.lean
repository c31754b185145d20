import Conveyor.Proofs.Schedule.Numbers

/-!
# The crew

The workers and the scheduler. A worker has a turn to come iff it is called, and a worker that is
done is not called again. The scheduler counts the workers that are done; it goes on when all of
them are, or when one of them was stopped. A worker that is done without having been stopped has
left nothing in the queue.

- `Floor.calls`, `Floor.reports`, `Floor.summons`: how many turns of the crew are to come.
- `Floor.Staffed`: the crew is in order.
- `Floor.Staffed.step`, `Floor.Staffed.nextRound`: **turns and rounds keep it so**.
-/

namespace Conveyor

variable {σ : Type}

namespace Floor

/-- How many turns of a worker are to come. -/
def calls (fl : Floor σ) (w : Nat) : Nat := fl.pending.countP (Turn.isWorker w)

/-- How many workers are done of which the scheduler will learn. -/
def reports (fl : Floor σ) : Nat := fl.pending.countP Turn.isWorkerDone

/-- How many turns of the scheduler are to come. -/
def summons (fl : Floor σ) : Nat := fl.pending.countP Turn.isScheduler

/-- How many workers are done. -/
def doneWorkers (fl : Floor σ) : Nat := fl.workers.countP fun x => x.duty.isDone

/-- Was one of the workers stopped? -/
def Stopped (fl : Floor σ) : Prop := ∃ worker ∈ fl.workers, worker.duty = .done true

/-- The crew is in order. -/
structure Staffed (fl : Floor σ) : Prop where
  called : ∀ w worker, fl.workers[w]? = some worker →
    fl.calls w = if worker.call = .idle then 0 else 1
  known : ∀ w, fl.workers.length ≤ w → fl.calls w = 0
  rested : ∀ worker ∈ fl.workers, worker.duty.isDone = true → worker.call = .idle
  counted : fl.doneCount + fl.reports = fl.doneWorkers
  finished : fl.schedulerCall ≠ .idle →
    0 < fl.doneCount ∧ fl.doneCount = fl.workers.length ∨ fl.Stopped
  reported : fl.doneCount = fl.workers.length → 0 < fl.workers.length → fl.schedulerCall ≠ .idle
  summoned : fl.summons = if fl.schedulerCall = .idle then 0 else 1
  drained : (∃ worker ∈ fl.workers, worker.duty = .done false) → fl.queue = []

variable {fl fl' : Floor σ}

/-- Nothing of the crew changes. -/
theorem Staffed.of_same (h : fl.Staffed) (hworkers : fl'.workers = fl.workers)
    (hqueue : fl'.queue = fl.queue) (hcount : fl'.doneCount = fl.doneCount)
    (hsched : fl'.schedulerCall = fl.schedulerCall) (hcalls : ∀ w, fl'.calls w = fl.calls w)
    (hreports : fl'.reports = fl.reports) (hsummons : fl'.summons = fl.summons) :
    fl'.Staffed := by
  refine ⟨?_, ?_, ?_, ?_, ?_, ?_, ?_, ?_⟩
  · intro w worker hw
    rw [hcalls]
    exact h.called w worker (hworkers ▸ hw)
  · intro w hw
    rw [hcalls]
    exact h.known w (hworkers ▸ hw)
  · rw [hworkers]
    exact h.rested
  · rw [hcount, hreports, h.counted, doneWorkers, doneWorkers, hworkers]
  · rw [hsched, hcount, Stopped, hworkers]
    exact h.finished
  · rw [hcount, hworkers, hsched]
    exact h.reported
  · rw [hsummons, hsched]
    exact h.summoned
  · rw [hworkers, hqueue]
    exact h.drained

theorem mem_modify {α : Type} {ws : List α} {w : Nat} {k : α → α} {worker x : α}
    (hget : ws[w]? = some worker) (hx : x ∈ ws.modify w k) : x = k worker ∨ x ∈ ws := by
  obtain ⟨n, hn⟩ := List.mem_iff_getElem?.1 hx
  by_cases hnw : w = n
  · subst hnw
    rw [List.getElem?_modify_eq, hget] at hn
    exact .inl (Option.some.inj hn).symm
  · rw [List.getElem?_modify_ne _ _ hnw] at hn
    exact .inr (List.mem_iff_getElem?.2 ⟨n, hn⟩)

theorem mem_modify_of_ne {ws : List (Worker σ)} {w : Nat} {k : Worker σ → Worker σ}
    {worker x : Worker σ}
    (hget : ws[w]? = some worker) (hx : x ∈ ws) (hne : x ≠ worker) : x ∈ ws.modify w k := by
  obtain ⟨n, hn⟩ := List.mem_iff_getElem?.1 hx
  refine List.mem_iff_getElem?.2 ⟨n, ?_⟩
  have hnw : w ≠ n := by
    rintro rfl
    rw [hget] at hn
    exact hne (Option.some.inj hn).symm
  rw [List.getElem?_modify_ne _ _ hnw]
  exact hn

/-- One more or one less worker is done when the duty of one changes. -/
theorem countP_modify {α : Type} {ws : List α} {w : Nat} {k : α → α} {worker : α}
    (hget : ws[w]? = some worker) (p : α → Bool) :
    (ws.modify w k).countP p + (if p worker = true then 1 else 0) =
      ws.countP p + if p (k worker) = true then 1 else 0 := by
  induction ws generalizing w with
  | nil => simp at hget
  | cons x xs ih =>
    cases w with
    | zero =>
      rw [List.getElem?_cons_zero] at hget
      cases hget
      rw [List.modify_zero_cons, List.countP_cons, List.countP_cons]
      omega
    | succ w =>
      rw [List.getElem?_cons_succ] at hget
      have h := ih hget
      rw [List.modify_succ_cons, List.countP_cons, List.countP_cons]
      omega

/-- A worker that was busy stays busy. -/
theorem Staffed.of_busy (h : fl.Staffed) {w : Nat} {k : Worker σ → Worker σ} {worker : Worker σ}
    (hget : fl.workers[w]? = some worker) (hworkers : fl'.workers = fl.workers.modify w k)
    (hbusy : worker.duty.isDone = false) (hbusy' : (k worker).duty.isDone = false)
    (hqueue : fl'.queue = fl.queue) (hcount : fl'.doneCount = fl.doneCount)
    (hsched : fl'.schedulerCall = fl.schedulerCall)
    (hcalls : ∀ u, u ≠ w → fl'.calls u = fl.calls u)
    (hcall : fl'.calls w = if (k worker).call = .idle then 0 else 1)
    (hreports : fl'.reports = fl.reports) (hsummons : fl'.summons = fl.summons) :
    fl'.Staffed := by
  have hdone : fl'.doneWorkers = fl.doneWorkers := by
    have hc := countP_modify (k := k) hget fun x => x.duty.isDone
    simp only [hbusy, hbusy', Bool.false_eq_true, if_false, Nat.add_zero] at hc
    rw [doneWorkers, hworkers, hc, doneWorkers]
  have hlength : fl'.workers.length = fl.workers.length := by rw [hworkers, List.length_modify]
  -- Workers that are done are the same as before.
  have hmem : ∀ x, x.duty.isDone = true → (x ∈ fl'.workers ↔ x ∈ fl.workers) := by
    intro x hd
    rw [hworkers]
    refine ⟨fun hx => ?_, fun hx => mem_modify_of_ne hget hx ?_⟩
    · rcases mem_modify hget hx with rfl | hx
      · rw [hbusy'] at hd
        cases hd
      · exact hx
    · rintro rfl
      rw [hbusy] at hd
      cases hd
  refine
    { called := fun u x hx => ?_
      known := fun u hu => ?_
      rested := fun x hx hd => h.rested x ((hmem x hd).1 hx) hd
      counted := by rw [hcount, hreports, hdone]; exact h.counted
      finished := ?_
      reported := by rw [hcount, hlength, hsched]; exact h.reported
      summoned := by rw [hsummons, hsched]; exact h.summoned
      drained := ?_ }
  -- Calls: those of the worker are given, those of the others are the same.
  · by_cases hu : u = w
    · subst hu
      rw [hworkers, List.getElem?_modify_eq, hget] at hx
      cases hx
      exact hcall
    · rw [hworkers, List.getElem?_modify_ne _ _ (Ne.symm hu)] at hx
      rw [hcalls u hu]
      exact h.called u x hx
  · rw [hlength] at hu
    have hne : u ≠ w := by
      rintro rfl
      exact absurd (List.getElem?_eq_some_iff.1 hget).1 (by omega)
    rw [hcalls u hne]
    exact h.known u hu
  · rw [hsched, hcount, hlength]
    intro hc
    refine (h.finished hc).imp_right ?_
    rintro ⟨x, hx, hd⟩
    exact ⟨x, (hmem x (by rw [hd]; rfl)).2 hx, hd⟩
  · rintro ⟨x, hx, hd⟩
    rw [hqueue]
    exact h.drained ⟨x, (hmem x (by rw [hd]; rfl)).1 hx, hd⟩

/-! ## Turns to come -/

theorem calls_push (fl : Floor σ) (t : Turn) (w : Nat) :
    (fl.push t).calls w = fl.calls w + if t.isWorker w = true then 1 else 0 := by
  rw [calls, pending, push, ← List.append_assoc, List.countP_append, List.countP_singleton]
  rfl

theorem reports_push (fl : Floor σ) (t : Turn) :
    (fl.push t).reports = fl.reports + if t.isWorkerDone = true then 1 else 0 := by
  rw [reports, pending, push, ← List.append_assoc, List.countP_append, List.countP_singleton]
  rfl

theorem summons_push (fl : Floor σ) (t : Turn) :
    (fl.push t).summons = fl.summons + if t.isScheduler = true then 1 else 0 := by
  rw [summons, pending, push, ← List.append_assoc, List.countP_append, List.countP_singleton]
  rfl

/-- The turn that is taken is no longer to come. -/
theorem countP_pop {t : Turn} {rest : List Turn} (hr : fl.ready = t :: rest) (p : Turn → Bool) :
    fl.pending.countP p =
      { fl with ready := rest }.pending.countP p + if p t = true then 1 else 0 := by
  rw [pending, pending, hr, List.cons_append, List.countP_cons]

/-- A worker is called that was not called before. -/
theorem Staffed.of_call (h : fl.Staffed) {w : Nat} {worker : Worker σ} {c : Call}
    (hget : fl.workers[w]? = some worker) (hbusy : worker.duty.isDone = false)
    (hcalls : fl.calls w = 0) (hc : c ≠ .idle) :
    ((fl.modifyWorker w fun x => { x with call := c }).push (.worker w)).Staffed := by
  refine h.of_busy hget (k := fun x => { x with call := c }) rfl hbusy hbusy rfl rfl rfl
    (fun u hu => ?_) ?_ ?_ ?_
  · rw [calls_push, Turn.isWorker, decide_eq_false (Ne.symm hu)]
    rfl
  · rw [calls_push, Turn.isWorker, decide_eq_true rfl, if_pos rfl, if_neg hc,
      show (fl.modifyWorker w fun x => { x with call := c }).calls w = 0 from hcalls]
  · rw [reports_push]
    rfl
  · rw [summons_push]
    rfl

/-! ## Putting a flight back -/

variable {f : Nat} {v : Lane} {d : Desk}

/-- Turns of flights are not turns of the crew. -/
theorem PutBack.turns (h : PutBack f d fl fl') (p : Turn → Bool)
    (hp : ∀ g c, p (.flight g c) = false) (hp' : p (.worker d.flight.worker) = false) :
    fl'.pending.countP p = fl.pending.countP p := by
  obtain ⟨ts, hlater, hts, -⟩ := h.later
  have hnone : ts.countP p = 0 := by
    rw [List.countP_eq_zero]
    intro t ht
    rcases hts t ht with ⟨g, c, rfl, -⟩ | rfl
    · rw [hp]
      exact Bool.false_ne_true
    · rw [hp']
      exact Bool.false_ne_true
  rw [pending, h.ready, hlater, ← List.append_assoc, List.countP_append, hnone, Nat.add_zero]
  rfl

theorem PutBack.calls (h : PutBack f d fl fl') (w : Nat) :
    fl'.calls w = fl.calls w + if w = d.flight.worker then d.orders.count .worker else 0 := by
  obtain ⟨ts, hlater, -, hcount⟩ := h.later
  rw [Floor.calls, pending, h.ready, hlater, ← List.append_assoc, List.countP_append, hcount]
  rfl

theorem PutBack.staffed (h : PutBack f d fl fl') (hv : fl.lane? f = some v) (hd : v.desk.Fits d)
    (hs : fl.Staffed) : fl'.Staffed := by
  have hreports : fl'.reports = fl.reports := h.turns _ (fun _ _ => rfl) rfl
  have hsummons : fl'.summons = fl.summons := h.turns _ (fun _ _ => rfl) rfl
  by_cases hp : d.post = .away
  · -- The worker has left the flight already, and learns nothing of the turn.
    have hstand : (Worker.stand f d.post d.call : Worker σ → Worker σ) = id := by
      rw [hp]
      rfl
    have hworkers : fl'.workers = fl.workers := by rw [h.workers, hstand, List.modify_id]
    have hno : d.orders.count .worker = 0 := by
      rw [List.count_eq_zero]
      exact fun ho => hd.orders ho hp
    refine hs.of_same hworkers h.queue h.doneCount h.schedulerCall (fun w => ?_) hreports
      hsummons
    rw [h.calls, hno]
    simp
  · have hvp : v.post ≠ .away := fun ha => hp (hd.post.2 ha)
    obtain ⟨worker, hw, hpost, hcall⟩ := worker_of_lane hv hvp
    have hwork : d.flight.worker = v.flight.worker := hd.worker
    rw [← hwork] at hw
    have hbusy : worker.duty.isDone = false := by
      rcases duty_of_postOn hpost hvp with ⟨hduty, -⟩ | ⟨cause, hduty, -⟩ <;> rw [hduty] <;> rfl
    have hstand : (Worker.stand f d.post d.call worker).duty.isDone = false ∧
        (Worker.stand f d.post d.call worker).call = d.call := by
      cases hdp : d.post with
      | away => exact absurd hdp hp
      | watching => exact ⟨rfl, rfl⟩
      | preempting cause => exact ⟨rfl, rfl⟩
    refine hs.of_busy hw h.workers hbusy hstand.1 h.queue h.doneCount h.schedulerCall
      (fun u hu => ?_) ?_ hreports hsummons
    · rw [h.calls, if_neg hu, Nat.add_zero]
    · rw [h.calls, if_pos rfl, hs.called _ worker hw, hcall, hstand.2]
      have hvcall : v.desk.call = v.call := rfl
      rcases hd.calls with ⟨hno, hsame⟩ | ⟨-, hidle, hcalled, hone⟩
      · rw [hsame, hvcall, List.count_eq_zero.2 hno, Nat.add_zero]
      · rw [← hvcall, hidle, hcalled, hone]
        rfl

/-! ## Turns of workers -/

/-- A worker whose turn comes is no longer called, and was not done. -/
theorem Staffed.idle (h : fl.Staffed) {w : Nat} {worker : Worker σ} {rest : List Turn}
    (hr : fl.ready = .worker w :: rest) (hget : fl.workers[w]? = some worker) :
    worker.duty.isDone = false ∧
      ({ fl with ready := rest }.modifyWorker w fun x => { x with call := .idle }).Staffed := by
  have hpop : fl.calls w = { fl with ready := rest }.calls w + 1 := by
    have hp := countP_pop hr (Turn.isWorker w)
    rwa [Turn.isWorker, decide_eq_true rfl, if_pos rfl] at hp
  have hcalled := h.called w worker hget
  have hnot : worker.call ≠ .idle := by
    intro hidle
    rw [if_pos hidle] at hcalled
    omega
  -- Workers that are done are not called.
  have hbusy : worker.duty.isDone = false := by
    cases hd : worker.duty.isDone with
    | false => rfl
    | true => exact absurd (h.rested worker (List.mem_of_getElem? hget) hd) hnot
  rw [if_neg hnot] at hcalled
  refine ⟨hbusy, h.of_busy hget rfl hbusy hbusy rfl rfl rfl (fun u hu => ?_) ?_ ?_ ?_⟩
  · have hp := countP_pop hr (Turn.isWorker u)
    rw [Turn.isWorker, decide_eq_false (Ne.symm hu)] at hp
    exact hp.symm
  · show { fl with ready := rest }.calls w = 0
    omega
  · exact (countP_pop hr Turn.isWorkerDone).symm
  · exact (countP_pop hr Turn.isScheduler).symm

/-- Things that were seen are nothing to the crew. -/
theorem Staffed.see (h : fl.Staffed) (g : Option Nat) (ns : List Note) : (fl.see g ns).Staffed :=
  h.of_same rfl rfl rfl rfl (fun _ => rfl) rfl rfl

/-- Jobs are taken from the queue. -/
theorem Staffed.cleared (h : fl.Staffed) {rest : List JobInstance} (hq : fl.queue = [] →
    rest = [])
    (m : σ) (ns : List Note) : (fl.cleared rest m ns).Staffed :=
  { called := h.called
    known := h.known
    rested := h.rested
    counted := h.counted
    finished := h.finished
    reported := h.reported
    summoned := h.summoned
    drained := fun hd => hq (h.drained hd) }

/-- A worker is done: if it was not stopped, it has left nothing in the queue. -/
theorem Staffed.endWorker (h : fl.Staffed) {w : Nat} {worker : Worker σ}
    (hget : fl.workers[w]? = some worker) (hbusy : worker.duty.isDone = false)
    (hidle : worker.call = .idle) {stopped : Bool} (hqueue : stopped = false → fl.queue = []) :
    (Engine.endWorker w stopped fl).Staffed := by
  have hworkers : (Engine.endWorker w stopped fl).workers =
      fl.workers.modify w fun x => { x with duty := .done stopped } := rfl
  have hcalls : ∀ u, (Engine.endWorker w stopped fl).calls u = fl.calls u := by
    intro u
    rw [Engine.endWorker, calls_push]
    rfl
  have hlength : (Engine.endWorker w stopped fl).workers.length = fl.workers.length := by
    rw [hworkers, List.length_modify]
  have hdone : (Engine.endWorker w stopped fl).doneWorkers = fl.doneWorkers + 1 := by
    have hc := countP_modify (k := fun x => { x with duty := .done stopped }) hget
      fun x => x.duty.isDone
    rw [hbusy, if_neg Bool.false_ne_true, Nat.add_zero] at hc
    rw [doneWorkers, hworkers, hc]
    rfl
  refine
    { called := fun u x hx => ?_
      known := fun u hu => by rw [hcalls]; exact h.known u (hlength ▸ hu)
      rested := fun x hx hd => ?_
      counted := ?_
      finished := fun hc => ?_
      reported := by rw [hlength]; exact h.reported
      summoned := by rw [Engine.endWorker, summons_push]; exact h.summoned
      drained := ?_ }
  · rw [hcalls]
    by_cases hu : w = u
    · subst hu
      rw [hworkers, List.getElem?_modify_eq, hget] at hx
      cases hx
      exact h.called w worker hget
    · rw [hworkers, List.getElem?_modify_ne _ _ hu] at hx
      exact h.called u x hx
  · rcases mem_modify hget hx with rfl | hx
    · exact hidle
    · exact h.rested x hx hd
  · -- One more is done, and one more tells of it.
    have hreports : (Engine.endWorker w stopped fl).reports = fl.reports + 1 := by
      rw [Engine.endWorker, reports_push]
      rfl
    rw [hreports, hdone, ← h.counted]
    exact (Nat.add_assoc _ _ _).symm
  · rw [hlength]
    refine (h.finished hc).imp_right ?_
    rintro ⟨x, hx, hd⟩
    refine ⟨x, mem_modify_of_ne hget hx ?_, hd⟩
    rintro rfl
    rw [hd] at hbusy
    cases hbusy
  · rintro ⟨x, hx, hd⟩
    rcases mem_modify hget hx with rfl | hx
    · exact hqueue (by simpa using hd)
    · exact h.drained ⟨x, hx, hd⟩

theorem Staffed.launch (h : fl.Staffed) {w : Nat} {worker : Worker σ}
    (hget : fl.workers[w]? = some worker) (hbusy : worker.duty.isDone = false)
    (i : JobInstance) :
    (Engine.launch w i fl).Staffed := by
  have hlaunch := launch_eq w i fl
  have hturns : ∀ p : Turn → Bool, (∀ g c, p (.flight g c) = false) →
      (Engine.launch w i fl).pending.countP p = fl.pending.countP p := by
    intro p hp
    rw [pending, hlaunch, ← List.append_assoc, List.countP_append]
    simp [hp, pending]
  refine h.of_busy hget (by rw [hlaunch]) hbusy rfl (by rw [hlaunch]) (by rw [hlaunch])
    (by rw [hlaunch]) (fun u _ => hturns _ fun _ _ => rfl) ?_ (hturns _ fun _ _ => rfl)
    (hturns _ fun _ _ => rfl)
  exact (hturns _ fun _ _ => rfl).trans (h.called w worker hget)

/-- A worker whose receiver has waited long enough is called, unless it is called already. -/
theorem Staffed.callTeller (h : fl.Staffed) (w : Nat) : (fl.callTeller w).Staffed := by
  rcases fl.callTeller_eq w with hsame | ⟨worker, hw, hwaits, hidle, hcalls⟩
  · rwa [hsame]
  · have hbusy := Duty.isDone_of_hasWaited hwaits
    have hcalled := h.called w worker hw
    rw [if_pos hidle] at hcalled
    rw [hcalls]
    exact h.of_call hw hbusy hcalled (by simp)

/-- A worker waits for the receiver. -/
theorem Staffed.attend (h : fl.Staffed) {w : Nat} {worker : Worker σ}
    (hget : fl.workers[w]? = some worker) (hbusy : worker.duty.isDone = false) (jobId : Text)
    (span : Nat) (next : Bool → Reception σ) : (Engine.attend w jobId span next fl).Staffed := by
  have hwaits : (fl.modifyWorker w fun x =>
      { x with duty := .telling jobId (fl.now + span) next }).Staffed :=
    h.of_busy hget rfl hbusy rfl rfl rfl rfl (fun _ _ => rfl) (h.called w worker hget) rfl rfl
  unfold Engine.attend
  dsimp only
  split
  · exact hwaits.callTeller w
  · exact hwaits.of_same rfl rfl rfl rfl (fun _ => rfl) rfl rfl

/-- A worker that looks for the next job keeps the crew in order. -/
theorem Staffed.seeks (h : fl.Staffed) {e : Engine} {w : Nat} {worker : Worker σ}
    (hget : fl.workers[w]? = some worker) (hbusy : worker.duty.isDone = false)
    (hidle : worker.call = .idle) {told : Option Text} {quick : Bool}
    (hs : e.Seeks w told fl quick fl') : fl'.Staffed := by
  cases hs with
  | leave passes => exact (h.cleared (fun _ => rfl) ..).endWorker hget hbusy hidle fun _ => rfl
  | @take i rest ns m passes running =>
    refine (h.cleared (fun hq => ?_) ..).launch hget hbusy i
    exact absurd (hq.symm.trans passes.queue) (by simp)
  | @stop gone rest ns m passes =>
    refine (h.cleared (fun hq => ?_) ..).endWorker hget hbusy hidle (by simp)
    exact (List.append_eq_nil_iff.1 (hq.symm.trans passes.queue).symm).2
  | @wait gone rest ns m jobId span next passes =>
    refine (h.cleared (fun hq => ?_) ..).attend hget hbusy jobId span next
    exact (List.append_eq_nil_iff.1 (hq.symm.trans passes.queue).symm).2

theorem Staffed.carryOn (h : fl.Staffed) (e : Engine) {w : Nat} {worker : Worker σ}
    (hget : fl.workers[w]? = some worker) (hbusy : worker.duty.isDone = false)
    (hidle : worker.call = .idle) (d : Desk) (sq : Sequel) : (e.carryOn w d fl sq).Staffed := by
  cases sq with
  | stay => exact h
  | free status =>
    obtain ⟨quick, hseeks, -⟩ := e.seeks_tell w (e.resultOf status d) fl
    exact h.seeks hget hbusy hidle hseeks
  | stop => exact h.endWorker hget hbusy hidle (by simp)

/-- A turn of a worker on its job, after which it goes on. -/
theorem Staffed.workOn (h : fl.Staffed) (e : Engine) (hv : fl.lane? f = some v)
    (hp : v.post ≠ .away) (hc : v.call = .idle) {turn : Desk → Desk × Sequel}
    (ht : v.desk.Tends e (turn v.desk).1) : (e.workOn v.flight.worker f turn fl).Staffed := by
  have hput := putBack f (turn v.desk).1 fl
  have hs := hput.staffed hv (ht.fits hp) h
  obtain ⟨worker, hw, -, -⟩ := worker_of_lane hv hp
  have hget : (fl.put f (turn v.desk).1).workers[v.flight.worker]? =
      some (Worker.stand f (turn v.desk).1.post (turn v.desk).1.call worker) := by
    have hworker : (turn v.desk).1.flight.worker = v.flight.worker := ht.worker
    rw [hput.workers, hworker, List.getElem?_modify_eq, hw]
    rfl
  have hcall : (turn v.desk).1.call = .idle := ht.call.trans hc
  rw [Engine.workOn, desk?_of_lane hv]
  refine hs.carryOn e hget ?_ ?_ _ _
  · cases hpost : (turn v.desk).1.post with
    | away => exact absurd hpost ht.post
    | watching => rfl
    | preempting cause => rfl
  · cases hpost : (turn v.desk).1.post with
    | away => exact absurd hpost ht.post
    | watching => exact hcall
    | preempting cause => exact hcall

/-- A turn of a worker keeps the crew in order. -/
theorem Staffed.workerTurn (h : fl.Staffed) (hA : fl.Assigned) (e : Engine) {w : Nat}
    {rest : List Turn} (hr : fl.ready = .worker w :: rest) :
    (e.workerTurn w { fl with ready := rest }).Staffed := by
  rw [Engine.workerTurn]
  cases hw : fl.workers[w]? with
  | none =>
    have hpop : fl.calls w = { fl with ready := rest }.calls w + 1 := by
      have hp := countP_pop hr (Turn.isWorker w)
      rwa [Turn.isWorker, decide_eq_true rfl, if_pos rfl] at hp
    -- Nobody calls a worker that is not there.
    have hknown := h.known w (List.getElem?_eq_none_iff.1 hw)
    omega
  | some worker =>
    obtain ⟨hbusy, hidle⟩ := h.idle hr hw
    have hget : ({ fl with ready := rest }.modifyWorker w fun x =>
        { x with call := .idle }).workers[w]? = some { worker with call := .idle } := by
      rw [modifyWorker, List.getElem?_modify_eq, hw]
      rfl
    have hA' : ({ fl with ready := rest }.modifyWorker w fun x =>
        { x with call := .idle }).Assigned :=
      assigned_modify hA (keeps_of_eq rfl) rfl fun _ _ _ hf => .inl hf
    dsimp only
    -- By the duty: a new worker takes a job or is sent home, and one with a flight goes on with
    -- it.
    cases hduty : worker.duty with
    | fresh =>
      dsimp only
      split
      · exact hidle.endWorker hget hbusy rfl (by simp)
      · obtain ⟨quick, hseeks, -⟩ := e.seeks_queue w ({ fl with ready := rest }.modifyWorker w
          fun x => { x with call := .idle })
        exact hidle.seeks hget hbusy rfl hseeks
    | telling jobId due next =>
      obtain ⟨quick, hseeks, -⟩ :=
          (e.hears_proceed w jobId ({ fl with ready := rest }.modifyWorker w
        fun x => { x with call := .idle }) (next (worker.call = .cut))).seeks_resume
      exact hidle.seeks hget hbusy rfl hseeks
    | watching g =>
      obtain ⟨u, hu, rfl, hpost, hcall⟩ := lane?_of_duty (f := g) hA' hget
        (by simp [hduty, Duty.postOn])
      have hp : u.post ≠ .away := by simp [hpost, hduty, Duty.postOn]
      exact hidle.workOn e hu hp hcall (e.tends_afterWatching hp rfl rfl _)
    | preempting g cause =>
      obtain ⟨u, hu, rfl, hpost, hcall⟩ := lane?_of_duty (f := g) hA' hget
        (by simp [hduty, Duty.postOn])
      have hp : u.post ≠ .away := by simp [hpost, hduty, Duty.postOn]
      exact hidle.workOn e hu hp hcall (e.tends_afterPreempting hp rfl rfl cause _)
    | done stopped =>
      rw [hduty] at hbusy
      cases hbusy

/-! ## Turns and rounds -/

/-- The scheduler is called when all workers are known to be done, or one of them was stopped. -/
theorem staffed_callScheduler (hcalled : ∀ w worker, fl.workers[w]? = some worker →
      fl.calls w = if worker.call = .idle then 0 else 1)
    (hknown : ∀ w, fl.workers.length ≤ w → fl.calls w = 0)
    (hrested : ∀ worker ∈ fl.workers, worker.duty.isDone = true → worker.call = .idle)
    (hcounted : fl.doneCount + fl.reports = fl.doneWorkers)
    (hfinished : 0 < fl.doneCount ∧ fl.doneCount = fl.workers.length ∨ fl.Stopped)
    (hsummoned : fl.summons = if fl.schedulerCall = .idle then 0 else 1)
    (hdrained : (∃ worker ∈ fl.workers, worker.duty = .done false) → fl.queue = []) :
    fl.callScheduler.Staffed := by
  -- A scheduler that is called already is not called twice.
  unfold callScheduler
  split
  · rename_i hidle
    rw [if_pos hidle] at hsummoned
    refine ⟨fun w worker hw => ?_, fun w hw => ?_, hrested, ?_, fun _ => hfinished, ?_, ?_,
      hdrained⟩
    · rw [calls_push]
      exact hcalled w worker hw
    · rw [calls_push]
      exact hknown w hw
    · rw [reports_push]
      exact hcounted
    · exact fun _ _ hc => Call.noConfusion hc
    · have hnone : { fl with schedulerCall := .called }.summons = 0 := hsummoned
      rw [summons_push, hnone]
      rfl
  · rename_i hcall
    exact ⟨hcalled, hknown, hrested, hcounted, fun _ => hfinished, fun _ _ => hcall, hsummoned,
      hdrained⟩

/-- The scheduler learns that a worker is done. -/
theorem Staffed.workerDoneTurn (h : fl.Staffed) {w : Nat} {rest : List Turn}
    (hr : fl.ready = .workerDone w :: rest) :
    ({ fl with ready := rest }.workerDoneTurn w).Staffed := by
  have hcalls : ∀ u, { fl with ready := rest, doneCount := fl.doneCount + 1 }.calls u =
      fl.calls u :=
    fun u => (countP_pop hr (Turn.isWorker u)).symm
  have hreports : fl.reports =
      { fl with ready := rest, doneCount := fl.doneCount + 1 }.reports + 1 :=
    countP_pop hr Turn.isWorkerDone
  have hsummons : { fl with ready := rest, doneCount := fl.doneCount + 1 }.summons =
      fl.summons :=
    (countP_pop hr Turn.isScheduler).symm
  have hcounted : fl.doneCount + 1 +
      { fl with ready := rest, doneCount := fl.doneCount + 1 }.reports = fl.doneWorkers := by
    have hc := h.counted
    omega
  have hcall : 0 < fl.doneCount + 1 ∧ fl.doneCount + 1 = fl.workers.length ∨ fl.Stopped →
      { fl with ready := rest, doneCount := fl.doneCount + 1 }.callScheduler.Staffed :=
    fun hfinished => staffed_callScheduler
      (fun u worker hu => (hcalls u).trans (h.called u worker hu))
      (fun u hu => (hcalls u).trans (h.known u hu)) h.rested hcounted hfinished
      (hsummons.trans h.summoned) h.drained
  unfold Floor.workerDoneTurn
  dsimp only
  split
  · rename_i hstop
    refine hcall (.inr ?_)
    obtain ⟨worker, hw, hd⟩ := Option.map_eq_some_iff.1 hstop
    exact ⟨worker, List.mem_of_getElem? hw, hd⟩
  · split
    · rename_i hall
      exact hcall (.inl ⟨Nat.succ_pos _, hall⟩)
    · rename_i hall
      refine ⟨fun u worker hu => (hcalls u).trans (h.called u worker hu),
        fun u hu => (hcalls u).trans (h.known u hu), h.rested, hcounted, fun hc => ?_,
        fun hdone => absurd hdone hall, hsummons.trans h.summoned, h.drained⟩
      rcases h.finished hc with ⟨-, hdone⟩ | hstop
      · -- All workers were counted already, so none is left that could be done now.
        have hle : fl.doneWorkers ≤ fl.workers.length := List.countP_le_length
        have hc' := h.counted
        omega
      · exact .inr hstop

theorem Staffed.cutWorker (h : fl.Staffed) (w : Nat) : (fl.cutWorker w).Staffed := by
  unfold Floor.cutWorker
  cases hw : fl.workers[w]? with
  | none => exact h
  | some worker =>
    dsimp only
    cases hd : worker.duty.isDone with
    | true => exact h
    | false =>
      have hcalled := h.called w worker hw
      rw [if_neg Bool.false_ne_true]
      -- A worker that is called already has its turn to come.
      split
      · rename_i hidle
        rw [if_pos hidle] at hcalled
        exact h.of_call hw hd hcalled (by simp)
      · rename_i hcall
        rw [if_neg hcall] at hcalled
        exact h.of_busy hw (k := fun x => { x with call := .cut }) rfl hd hd rfl rfl rfl
          (fun _ _ => rfl) hcalled rfl rfl

/-- New surroundings are nothing to the crew. -/
theorem Staffed.moveTo (h : fl.Staffed) (s : Surroundings) : (fl.moveTo s).Staffed := by
  obtain ⟨g, ts, hmove, -, -, hts⟩ := moveTo_eq s fl
  have hturns : ∀ p : Turn → Bool, (∀ k c, p (.flight k c) = false) →
      (fl.moveTo s).pending.countP p = fl.pending.countP p := by
    intro p hp
    have hnone : ts.countP p = 0 := by
      rw [List.countP_eq_zero]
      intro t ht
      obtain ⟨k, rfl, -⟩ := hts t ht
      rw [hp]
      exact Bool.false_ne_true
    rw [hmove, pending, ← List.append_assoc, List.countP_append, hnone, Nat.add_zero]
    rfl
  exact h.of_same (workers_moveTo s fl) (by rw [hmove]) (by rw [hmove]) (by rw [hmove])
    (fun _ => hturns _ fun _ _ => rfl) (hturns _ fun _ _ => rfl) (hturns _ fun _ _ => rfl)

/-- A turn that is none of the crew's is taken. -/
theorem Staffed.pop (h : fl.Staffed) {t : Turn} {rest : List Turn} (hr : fl.ready = t :: rest)
    (hw : ∀ w, t.isWorker w = false) (hd : t.isWorkerDone = false) (hs : t.isScheduler = false) :
    { fl with ready := rest }.Staffed := by
  refine h.of_same rfl rfl rfl rfl (fun w => ?_) ?_ ?_
  · have hp := countP_pop hr (Turn.isWorker w)
    rw [hw w] at hp
    exact hp.symm
  · have hp := countP_pop hr Turn.isWorkerDone
    rw [hd] at hp
    exact hp.symm
  · have hp := countP_pop hr Turn.isScheduler
    rw [hs] at hp
    exact hp.symm

/-- **Turns keep the crew in order.** -/
theorem Staffed.step (h : fl.Staffed) (hA : fl.Assigned) (e : Engine) {t : Turn}
    {rest : List Turn}
    (hr : fl.ready = t :: rest) (ht : t ≠ .scheduler) :
    (e.step t { fl with ready := rest }).Staffed := by
  cases t with
  | flight g c =>
    have hpop := h.pop hr (fun _ => rfl) rfl rfl
    rw [Engine.step, atDesk]
    cases hv : { fl with ready := rest }.lane? g with
    | none =>
      rw [desk?_of_no_lane hv]
      exact hpop
    | some v =>
      rw [desk?_of_lane hv]
      exact (putBack g _ _).staffed hv (e.fits_cueTurn rfl rfl (call_of_away hv) c) hpop
  | worker w => exact h.workerTurn hA e hr
  | receiver w => exact (h.pop hr (fun _ => rfl) rfl rfl).callTeller w
  | workerDone w => exact h.workerDoneTurn hr
  | scheduler => exact absurd rfl ht
  | errand act => exact ((h.pop hr (fun _ => rfl) rfl rfl).see _ _).moveTo _
  | stop =>
    have hpop := h.pop hr (fun _ => rfl) rfl rfl
    rw [Engine.step, stopTurn]
    split
    -- On the workers that are still to be cut.
    · generalize List.range _ = ws
      generalize { fl with ready := rest } = fl at hpop
      induction ws generalizing fl with
      | nil => exact hpop
      | cons w ws ih => exact ih _ (hpop.cutWorker w)
    · exact hpop.of_same rfl rfl rfl rfl (fun _ => rfl) rfl rfl

/-- **Rounds keep the crew in order.** -/
theorem Staffed.nextRound (h : fl.Staffed) (hr : fl.ready = []) (hnext : fl.nextRound =
    some fl') :
    fl'.Staffed := by
  obtain ⟨-, -, hfl'⟩ := nextRound_eq_some hnext
  generalize fl'.now = time at hfl'
  subst hfl'
  have hturns : ∀ p : Turn → Bool, (∀ t : Timer, p t.alarm.turn = false) →
      (fl.later ++ (Timer.expired time fl.timers).1.map fun t => t.alarm.turn).countP p =
        fl.pending.countP p := by
    intro p hp
    rw [List.countP_append, List.countP_map, pending, hr, List.nil_append]
    simp [Function.comp_def, hp]
  -- Alarms ring for flights and receivers, not for the crew.
  have hcrew : ∀ t : Timer, (∀ w, t.alarm.turn.isWorker w = false) ∧
      t.alarm.turn.isWorkerDone = false ∧ t.alarm.turn.isScheduler = false := by
    intro t
    cases t.alarm <;> exact ⟨fun _ => rfl, rfl, rfl⟩
  refine h.of_same rfl rfl rfl rfl (fun w => ?_) ?_ ?_
  · rw [Floor.calls, pending, List.append_nil]
    exact hturns _ fun t => (hcrew t).1 w
  · rw [Floor.reports, pending, List.append_nil]
    exact hturns _ fun t => (hcrew t).2.1
  · rw [Floor.summons, pending, List.append_nil]
    exact hturns _ fun t => (hcrew t).2.2

end Floor

end Conveyor
