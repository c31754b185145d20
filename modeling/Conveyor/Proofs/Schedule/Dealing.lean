import Conveyor.Proofs.Schedule.Crew

/-!
# Dealing with jobs

What a turn shows, and what it does about the queue. Only a worker that goes on takes jobs: it
takes the first in the queue, or turns jobs away if the run is canceled.

- `Lane.tend`: what a worker does in its turn on a flight.
- `Engine.Sought`: what comes of a turn in which a worker looks for a job.
- `Engine.Carries`: how a worker goes on after a turn.
- `Engine.Works`: what a worker does in its turn; `Engine.Serves`: what comes of it;
  `Engine.serves_workerTurn` says that there are no other turns.
- `Floor.Steps`: the turns; `Floor.steps_step` says that there are no others.
- `Floor.Shows`: what is seen in a turn; the run is canceled iff that is to be seen.
- `Floor.tells_step`: **scripts begin only in turns on flights.**
- `Floor.Deals`: what a turn does about the queue; `Floor.deals_step` says that there is nothing
  else.
-/

namespace Conveyor

variable {σ : Type}

/-- A lane whose worker has a turn. -/
def Lane.idled (v : Lane) : Lane := { v with call := .idle }

/-- What the worker does in its turn on a flight. -/
def Lane.tend (e : Engine) (v : Lane) : Desk × Sequel :=
  let cut : Bool := v.call = .cut
  match v.post with
  | .away => (v.idled.desk, .stay)
  | .watching => e.afterWatching cut v.idled.desk
  | .preempting cause => e.afterPreempting cause cut v.idled.desk

/-- The turn of a worker on its flight is a turn of a worker. -/
theorem Lane.tends_tend (e : Engine) {v : Lane} (hp : v.post ≠ .away) :
    v.idled.desk.Tends e (v.tend e).1 := by
  have hp' : v.idled.desk.post ≠ .away := hp
  unfold tend
  dsimp only
  split
  · rename_i ha
    exact absurd ha hp
  · exact e.tends_afterWatching hp' rfl rfl _
  · exact e.tends_afterPreempting hp' rfl rfl _ _

theorem Lane.workerTurn_away (e : Engine) {v : Lane} (hp : v.post = .away) :
    v.workerTurn e = v.idled := by
  obtain ⟨flight, post, call, around, ready, later, seen⟩ := v
  cases hp
  rfl

theorem Lane.workerTurn_eq (e : Engine) {v : Lane} (hp : v.post ≠ .away) :
    v.workerTurn e = v.idled.after (v.tend e) := by
  obtain ⟨flight, post, call, around, ready, later, seen⟩ := v
  cases post with
  | away => exact absurd rfl hp
  | watching => rfl
  | preempting cause => rfl

/-- A worker changes nothing about the surroundings. -/
theorem Lane.around_workerTurn (e : Engine) (v : Lane) : (v.workerTurn e).around = v.around := by
  by_cases hp : v.post = .away
  · rw [workerTurn_away e hp]
    rfl
  · have hput : (v.idled.put (v.tend e).1).around = v.around := by
      rw [put_eq]
      exact (v.tends_tend e hp).around
    rw [workerTurn_eq e hp]
    unfold after
    split
    · exact hput
    · exact hput

namespace Engine

/-! ## How a worker goes on -/

/-- What comes of a turn in which a worker looks for a job. -/
inductive Sought (e : Engine) (w : Nat) (fl fl' : Floor σ) : Prop
  /-- It takes no job. -/
  | nothing {gone : List JobInstance} {ns : List Note} (passes : e.Passes w fl gone fl'.queue ns)
      (seen : fl'.seen = (ns.map fun n => ⟨fl.now, none, n⟩).reverse ++ fl.seen)
      (flights : fl'.flights = fl.flights) (around : fl'.around = fl.around)
  /-- It takes the first job. -/
  | job {i : JobInstance} {rest : List JobInstance} {ns : List Note} {m : σ}
      (passes : e.Passes w fl [] (i :: rest) ns) (running : fl.around.canceled = false)
      (launched : fl' = launch w i (fl.cleared rest m ns))

theorem Seeks.sought {e : Engine} {w : Nat} {told : Option Text} {quick : Bool}
    {fl fl' : Floor σ}
    (h : e.Seeks w told fl quick fl') : e.Sought w fl fl' := by
  cases h with
  | leave passes => exact .nothing passes rfl rfl rfl
  | take passes running => exact .job passes running rfl
  | stop passes => exact .nothing passes rfl rfl rfl
  | @wait gone rest ns m jobId span next passes =>
    obtain ⟨ws, ts, timers, hattend, -⟩ := attend_eq w jobId span next (fl.cleared rest m ns)
    rw [hattend]
    exact .nothing passes rfl rfl rfl

/-- A worker that looks for a job leaves the others alone. When the receiver is done with it, it
is done itself or has a flight; otherwise it is stopped, or waits for the receiver. -/
theorem Seeks.workers {e : Engine} {w : Nat} {told : Option Text} {quick : Bool}
    {fl fl' : Floor σ}
    (h : e.Seeks w told fl quick fl') :
    ∃ k : Worker σ → Worker σ, fl'.workers = fl.workers.modify w k ∧
      (quick = true → ∀ x, (k x).duty = .done false ∨ (k x).duty = .watching fl.flights.length) ∧
      (quick = false → ∀ x, (k x).duty = .done true ∨ ∃ jobId due next,
        (k x).duty = .telling jobId due next) := by
  cases h with
  | leave passes => exact ⟨fun x => { x with duty := .done false }, rfl, by simp, by simp⟩
  | take passes running =>
    rw [Floor.launch_eq]
    exact ⟨fun x => { x with duty := .watching fl.flights.length }, rfl, by simp, by simp⟩
  | stop passes => exact ⟨fun x => { x with duty := .done true }, rfl, by simp, by simp⟩
  | @wait gone rest ns m jobId span next passes =>
    obtain ⟨ws, ts, timers, hattend, ⟨k, rfl, hk⟩, -⟩ :=
      attend_eq w jobId span next (fl.cleared rest m ns)
    rw [hattend]
    exact ⟨k, rfl, by simp, fun _ x => .inr ⟨_, _, _, hk x⟩⟩

/-- Nobody else is told of results than before. -/
theorem Seeks.receiver {e : Engine} {w : Nat} {told : Option Text} {quick : Bool}
    {fl fl' : Floor σ}
    (h : e.Seeks w told fl quick fl') : fl'.receiver = fl.receiver := by
  cases h with
  | leave passes => rfl
  | take passes running =>
    rw [Floor.launch_eq]
    rfl
  | stop passes => rfl
  | @wait gone rest ns m jobId span next passes =>
    obtain ⟨ws, ts, timers, hattend, -⟩ := attend_eq w jobId span next (fl.cleared rest m ns)
    rw [hattend]
    rfl

/-- How a worker goes on after a turn on the job with some id. -/
inductive Carries (e : Engine) (w : Nat) (jobId : Text) (fl : Floor σ) :
    Sequel → Floor σ → Prop
  /-- It goes on waiting. -/
  | stay : Carries e w jobId fl .stay fl
  /-- It is stopped. -/
  | stop : Carries e w jobId fl .stop (endWorker w true fl)
  /-- It tells the receiver, and looks for the next job. -/
  | free {status : JobStatus} {quick : Bool} {fl' : Floor σ}
    (seeks : e.Seeks w (some jobId) fl quick fl')
      (prompt : fl.receiver.Prompt → quick = true) : Carries e w jobId fl (.free status) fl'

theorem carries_carryOn (e : Engine) (w : Nat) (d : Desk) (fl : Floor σ) (sq : Sequel) :
    e.Carries w d.flight.job.id fl sq (e.carryOn w d fl sq) := by
  cases sq with
  | stay => exact .stay
  | stop => exact .stop
  | free status =>
    obtain ⟨quick, hseeks, hprompt⟩ := e.seeks_tell w (e.resultOf status d) fl
    exact .free hseeks hprompt

/-! ## Turns of a worker -/

/-- A worker that has a turn is no longer called. -/
def idled (w : Nat) (fl : Floor σ) : Floor σ :=
  fl.modifyWorker w fun x => { x with call := .idle }

/-- The turns of a worker. -/
inductive Serves (e : Engine) (w : Nat) (fl : Floor σ) : Floor σ → Prop
  | missing (get : fl.workers[w]? = none) : Serves e w fl fl
  /-- It is done already. -/
  | rest {worker : Worker σ} (get : fl.workers[w]? = some worker)
    (done : worker.duty.isDone = true) :
      Serves e w fl (idled w fl)
  /-- It is stopped before its first turn. -/
  | stop {worker : Worker σ} (get : fl.workers[w]? = some worker) (duty : worker.duty = .fresh)
      (cut : worker.call = .cut) :
      Serves e w fl (endWorker w true (idled w fl))
  /-- It is at no job, and looks for one. -/
  | seek {worker : Worker σ} {quick : Bool} {fl' : Floor σ} (get : fl.workers[w]? = some worker)
      (busy : worker.duty.isDone = false) (off : ∀ f, worker.duty.postOn f = .away)
      (seeks : e.Seeks w worker.duty.told? (idled w fl) quick fl')
      (prompt : fl.receiver.Prompt → worker.duty = .fresh → quick = true) : Serves e w fl fl'
  /-- A turn on its job. -/
  | tend {worker : Worker σ} {f : Nat} {v : Lane} {fl' : Floor σ} (get : fl.workers[w]? =
      some worker)
      (lane : fl.lane? f = some v) (own : v.flight.worker = w) (post : v.post ≠ .away)
      (next : e.Carries w v.flight.job.id ((idled w fl).put f (v.tend e).1) (v.tend e).2 fl') :
      Serves e w fl fl'

/-- The lane of a flight whose worker has a turn. -/
theorem lane?_idled {fl : Floor σ} {f w : Nat} {v : Lane} (hv : fl.lane? f = some v)
    (hw : v.flight.worker = w) : (idled w fl).lane? f = some v.idled := by
  rw [idled, Floor.lane?_idle hv w, if_pos hw]
  rfl

/-- What a worker does in its turn. -/
inductive Works (e : Engine) (w : Nat) (fl : Floor σ) : Floor σ → Prop
  | missing (get : fl.workers[w]? = none) : Works e w fl fl
  | rest {worker : Worker σ} (get : fl.workers[w]? = some worker)
    (done : worker.duty.isDone = true) :
      Works e w fl (idled w fl)
  | stop {worker : Worker σ} (get : fl.workers[w]? = some worker) (duty : worker.duty = .fresh)
      (cut : worker.call = .cut) : Works e w fl (endWorker w true (idled w fl))
  | seek {worker : Worker σ} (get : fl.workers[w]? = some worker) (duty : worker.duty = .fresh) :
      Works e w fl (e.takeJobs w (idled w fl).queue (idled w fl))
  | listen {worker : Worker σ} {jobId : Text} {due : Nat} {next : Bool → Reception σ}
    (cut : Bool)
      (get : fl.workers[w]? = some worker) (duty : worker.duty = .telling jobId due next) :
      Works e w fl (e.resume w
        (hear w jobId ((next cut).proceed (idled w fl).around (idled w fl).memory) (idled w fl)))
  | tend {worker : Worker σ} {f : Nat} {v : Lane} (get : fl.workers[w]? = some worker)
      (lane : fl.lane? f = some v) (own : v.flight.worker = w) (post : v.post ≠ .away) :
      Works e w fl (e.carryOn w (v.tend e).1 ((idled w fl).put f (v.tend e).1) (v.tend e).2)

/-- A turn on a job, after which the worker goes on. -/
theorem works_workOn (e : Engine) {fl : Floor σ} {f w : Nat} {v : Lane} {worker : Worker σ}
    {turn : Desk → Desk × Sequel} (get : fl.workers[w]? = some worker)
    (lane : fl.lane? f = some v)
    (own : v.flight.worker = w) (post : v.post ≠ .away) (ht : turn v.idled.desk = v.tend e) :
    e.Works w fl (e.workOn w f turn (idled w fl)) := by
  rw [workOn, Floor.desk?_of_lane (lane?_idled lane own)]
  dsimp only
  rw [ht]
  exact .tend get lane own post

theorem works_workerTurn (e : Engine) {fl : Floor σ} (hA : fl.Assigned) (w : Nat) :
    e.Works w fl (e.workerTurn w fl) := by
  rw [workerTurn]
  cases get : fl.workers[w]? with
  | none => exact .missing get
  | some worker =>
    dsimp only
    -- The duty of a worker says where it stands; with a flight, it has the lane of that flight.
    cases hduty : worker.duty with
    | fresh =>
      dsimp only
      split
      · rename_i hcut
        exact .stop get hduty (of_decide_eq_true hcut)
      · exact .seek get hduty
    | telling jobId due next => exact .listen _ get hduty
    | watching f =>
      have hd : worker.duty.postOn f = .watching := by simp [hduty, Duty.postOn]
      obtain ⟨v, hv, own, hpost, hcall⟩ := Floor.lane?_of_duty hA get (f := f) (by simp [hd])
      rw [hd] at hpost
      refine e.works_workOn get hv own (by simp [hpost]) ?_
      rw [Lane.tend, hpost, hcall]
    | preempting f cause =>
      have hd : worker.duty.postOn f = .preempting cause := by simp [hduty, Duty.postOn]
      obtain ⟨v, hv, own, hpost, hcall⟩ := Floor.lane?_of_duty hA get (f := f) (by simp [hd])
      rw [hd] at hpost
      refine e.works_workOn get hv own (by simp [hpost]) ?_
      rw [Lane.tend, hpost, hcall]
    | done stopped => exact .rest get (by rw [hduty]; rfl)

/-- **The turns of a worker are these.** -/
theorem serves_workerTurn (e : Engine) {fl : Floor σ} (hA : fl.Assigned) (w : Nat) :
    e.Serves w fl (e.workerTurn w fl) := by
  have hworks := e.works_workerTurn hA w
  generalize e.workerTurn w fl = fl' at hworks
  cases hworks with
  | missing get => exact .missing get
  | rest get done => exact .rest get done
  | stop get duty cut => exact .stop get duty cut
  | seek get duty =>
    obtain ⟨quick, hseeks, hprompt⟩ := e.seeks_queue w (idled w fl)
    exact .seek get (by rw [duty]; rfl) (by simp [duty, Duty.postOn])
        (by rw [duty]; exact hseeks)
      fun hp _ => hprompt hp
  | @listen worker jobId due next cut get duty =>
    obtain ⟨quick, hseeks, -⟩ := (e.hears_proceed w jobId (idled w fl) (next cut)).seeks_resume
    exact .seek get (by rw [duty]; rfl) (by simp [duty, Duty.postOn])
        (by rw [duty]; exact hseeks)
      fun _ hfresh => by rw [duty] at hfresh; cases hfresh
  | @tend worker f v get lane own post =>
    have hcarries := e.carries_carryOn w (v.tend e).1 ((idled w fl).put f (v.tend e).1)
      (v.tend e).2
    rw [(v.tends_tend e post).job] at hcarries
    exact .tend get lane own post hcarries

end Engine

/-! ## What is seen -/

namespace Floor

/-- What is seen between two floors, in order. No time passes, and the run is canceled iff it was
before, or that is to be seen. -/
structure Shows (fl fl' : Floor σ) (ss : List Sighting) : Prop where
  seen : fl'.seen = ss.reverse ++ fl.seen
  time : ∀ s ∈ ss, s.time = fl.now
  now : fl'.now = fl.now
  canceled : fl'.around.canceled = canceledAfter fl.around.canceled (ss.map Sighting.note)

variable {e : Engine} {fl fl' fl'' : Floor σ} {f w : Nat} {v : Lane} {ss ts : List Sighting}

/-- Nothing is to be seen. -/
theorem shows_nothing (hseen : fl'.seen = fl.seen) (haround : fl'.around = fl.around) :
    fl.Shows fl' [] := by
  refine ⟨hseen, by simp, ?_, ?_⟩
  · rw [now, haround]
    rfl
  · rw [haround, List.map_nil, canceledAfter_nil]

theorem Shows.trans (h : fl.Shows fl' ss) (h' : fl'.Shows fl'' ts) :
    fl.Shows fl'' (ss ++ ts) := by
  refine ⟨?_, fun s hs => ?_, h'.now.trans h.now, ?_⟩
  · rw [h'.seen, h.seen, List.reverse_append, List.append_assoc]
  · rcases List.mem_append.1 hs with hs | hs
    · exact h.time s hs
    · rw [h'.time s hs, h.now]
  · rw [h'.canceled, h.canceled, List.map_append, canceledAfter_append]

/-- What is seen of a flight in a turn on it. -/
def told (f : Nat) (ns : List Note) (fl : Floor σ) : List Sighting :=
  ns.map fun n => ⟨fl.now, some f, n⟩

@[simp] theorem map_note_told (f : Nat) (ns : List Note) (fl : Floor σ) :
    (fl.told f ns).map Sighting.note = ns := by
  simp [told, Function.comp_def]

/-- Putting a flight back shows what was seen at the desk. -/
theorem shows_put (hv : fl.lane? f = some v) {d : Desk} (hd : v.desk.Fits d) :
    fl.Shows (fl.put f d) (fl.told f d.notes) := by
  have hput := putBack f d fl
  have haround : v.desk.around = fl.around := around_of_lane hv
  refine ⟨hput.seen, ?_, ?_, ?_⟩
  · simp [told]
  · rw [now, hput.around, hd.now, haround]
    rfl
  · rw [hput.around, hd.canceled, haround, map_note_told]

end Floor

namespace Engine

variable {e : Engine} {fl fl' : Floor σ} {w : Nat}

/-- What can be seen of a worker that looks for a job: what the receiver does, and that jobs are
turned away if the run is canceled. -/
inductive Tidings (e : Engine) (w : Nat) (fl : Floor σ) : Sighting → Prop
  | deed (flight : Option Nat) (d : Deed) : Tidings e w fl ⟨fl.now, flight, d.toNote⟩
  | answered (jobId : Text) : Tidings e w fl ⟨fl.now, none, .answered w jobId⟩
  | turnedAway {i : JobInstance} (canceled : fl.around.canceled = true) (queued : i ∈ fl.queue) :
      Tidings e w fl ⟨fl.now, none, .turnedAway i.id⟩
  | completed {i : JobInstance} (canceled : fl.around.canceled = true) (queued : i ∈ fl.queue) :
      Tidings e w fl ⟨fl.now, none, .completed (e.refusedAt i fl.now)⟩

theorem Passes.tidings {gone rest : List JobInstance} {ns : List Note}
    (h : e.Passes w fl gone rest ns) : ∀ n ∈ ns, e.Tidings w fl ⟨fl.now, none, n⟩ := by
  intro n hn
  have hqueued : ∀ i ∈ gone, fl.around.canceled = true ∧ i ∈ fl.queue := by
    intro i hi
    rw [h.queue]
    exact ⟨h.canceled (List.ne_nil_of_mem hi), List.mem_append_left _ hi⟩
  rcases h.clears.mem hn with ⟨d, rfl⟩ | ⟨jobId, rfl⟩ | ⟨i, hi, rfl | rfl⟩
  · exact .deed none d
  · exact .answered jobId
  · exact .turnedAway (hqueued i hi).1 (hqueued i hi).2
  · exact .completed (hqueued i hi).1 (hqueued i hi).2

/-- Nobody tells that the run is canceled. -/
theorem Tidings.note_ne_canceled {s : Sighting} (h : e.Tidings w fl s) : s.note ≠ .canceled := by
  cases h with
  | deed flight d => exact NoteKind.toNote_ne_canceled d
  | _ => exact fun hn => by cases hn

theorem Tidings.time {s : Sighting} (h : e.Tidings w fl s) : s.time = fl.now := by
  cases h <;> rfl

/-- **What is seen of a worker that looks for a job.** -/
theorem Sought.shows (h : e.Sought w fl fl') :
    ∃ ss, fl.Shows fl' ss ∧ ∀ s ∈ ss, e.Tidings w fl s := by
  suffices hseen : ∃ ss : List Sighting, fl'.seen = ss.reverse ++ fl.seen ∧ fl'.around =
      fl.around ∧
      ∀ s ∈ ss, e.Tidings w fl s by
    obtain ⟨ss, hseen, haround, hss⟩ := hseen
    refine ⟨ss, ⟨hseen, fun s hs => (hss s hs).time, congrArg Surroundings.now haround, ?_⟩, hss⟩
    have hno : Note.canceled ∉ ss.map Sighting.note := by
      intro hc
      obtain ⟨s, hs, hn⟩ := List.mem_map.1 hc
      exact (hss s hs).note_ne_canceled hn
    simp [canceledAfter, hno, haround]
  cases h with
  | @nothing gone ns passes seen flights around =>
    refine ⟨_, seen, around, fun s hs => ?_⟩
    obtain ⟨n, hn, rfl⟩ := List.mem_map.1 hs
    exact passes.tidings n hn
  | @job i rest ns m passes running launched =>
    refine ⟨(ns.map fun n => ⟨fl.now, none, n⟩) ++
      [⟨fl.now, some fl.flights.length, .log .debug (pickUpMessage w i)⟩], ?_, ?_,
      fun s hs => ?_⟩
    · rw [launched, Floor.launch_eq, List.reverse_append]
      rfl
    · rw [launched, Floor.launch_eq]
      rfl
    · rcases List.mem_append.1 hs with hs | hs
      · obtain ⟨n, hn, rfl⟩ := List.mem_map.1 hs
        exact passes.tidings n hn
      · rw [List.mem_singleton.1 hs]
        exact .deed (some fl.flights.length) (.log .debug (pickUpMessage w i))

end Engine

namespace Floor

variable {e : Engine} {fl fl' : Floor σ} {f w : Nat} {v : Lane}

/-! ## Turns of others -/

/-- How a worker is called does not matter to its duty. -/
theorem duty_modify_call (ws : List (Worker σ)) (w : Nat) (c : Call) :
    (ws.modify w fun x => { x with call := c }).map Worker.duty = ws.map Worker.duty := by
  refine List.ext_getElem? fun j => ?_
  rw [List.getElem?_map, List.getElem?_map, List.getElem?_modify]
  cases ws[j]? with
  | none => rfl
  | some worker => by_cases hj : w = j <;> simp [hj]

theorem callTeller_duties (w : Nat) (fl : Floor σ) :
    ∃ ws ts, fl.callTeller w = { fl with workers := ws, later := fl.later ++ ts } ∧
      ws.map Worker.duty = fl.workers.map Worker.duty := by
  rcases fl.callTeller_eq w with hsame | ⟨worker, -, -, -, hcalls⟩
  · exact ⟨fl.workers, [], by rw [hsame]; simp, rfl⟩
  · exact ⟨_, [.worker w], hcalls, duty_modify_call fl.workers w .called⟩

theorem cutWorker_eq (w : Nat) (fl : Floor σ) :
    ∃ ws ts, fl.cutWorker w = { fl with workers := ws, later := fl.later ++ ts } ∧
      ws.map Worker.duty = fl.workers.map Worker.duty := by
  have hduty := duty_modify_call fl.workers w .cut
  unfold cutWorker
  split
  · dsimp only
    split
    · exact ⟨fl.workers, [], by simp, rfl⟩
    · split
      · exact ⟨_, [.worker w], rfl, hduty⟩
      · exact ⟨_, [], by simp [modifyWorker], hduty⟩
  · exact ⟨fl.workers, [], by simp, rfl⟩

/-- Stopping the whole schedule only interrupts workers. -/
theorem stopTurn_eq (fl : Floor σ) :
    ∃ ws ts doom, fl.stopTurn =
    { fl with workers := ws, later := fl.later ++ ts, doomed := doom } ∧
      ws.map Worker.duty = fl.workers.map Worker.duty := by
  have hfold : ∀ (ns : List Nat) (m : Floor σ), ∃ ws ts,
      ns.foldl (fun fl w => fl.cutWorker w) m =
      { m with workers := ws, later := m.later ++ ts } ∧
      ws.map Worker.duty = m.workers.map Worker.duty := by
    intro ns
    induction ns with
    | nil => exact fun m => ⟨m.workers, [], by simp, rfl⟩
    | cons w ns ih =>
      intro m
      obtain ⟨ws, ts, hcut, hws⟩ := cutWorker_eq w m
      obtain ⟨ws', ts', hrest, hws'⟩ := ih (m.cutWorker w)
      rw [hcut] at hrest hws'
      refine ⟨ws', ts ++ ts', ?_, hws'.trans hws⟩
      rw [List.foldl_cons, hcut, hrest, List.append_assoc]
  unfold stopTurn
  split
  · obtain ⟨ws, ts, hcut, hws⟩ := hfold (List.range fl.workers.length) fl
    exact ⟨ws, ts, fl.doomed, hcut, hws⟩
  · exact ⟨fl.workers, [], true, by simp, rfl⟩

/-- At most, the scheduler is called. -/
theorem workerDoneTurn_eq (w : Nat) (fl : Floor σ) :
    ∃ ts call, fl.workerDoneTurn w =
      { fl with
        later := fl.later ++ ts
        doneCount := fl.doneCount + 1
        schedulerCall := call } ∧
      ∀ t ∈ ts, t = .scheduler := by
  have hcall : ∃ ts call, { fl with doneCount := fl.doneCount + 1 }.callScheduler =
      { fl with later := fl.later ++ ts, doneCount := fl.doneCount + 1, schedulerCall := call } ∧
      ∀ t ∈ ts, t = .scheduler := by
    unfold callScheduler
    split
    · exact ⟨[.scheduler], .called, rfl, by simp⟩
    · exact ⟨[], fl.schedulerCall, by simp⟩
  have hnone : ∃ ts call, { fl with doneCount := fl.doneCount + 1 } =
      { fl with later := fl.later ++ ts, doneCount := fl.doneCount + 1, schedulerCall := call } ∧
      ∀ t ∈ ts, t = .scheduler :=
    ⟨[], fl.schedulerCall, by simp⟩
  unfold workerDoneTurn
  dsimp only
  split
  · exact hcall
  · split
    · exact hcall
    · exact hnone

/-! ## Turns -/

/-- What a turn does to a floor. Flights have theirs at a desk. What workers do is said by
`Engine.Serves`. The other turns move the floor to other surroundings, or change no more than who
is called. -/
inductive Steps (e : Engine) (fl : Floor σ) : Turn → Floor σ → Prop
  | desk {f : Nat} {v : Lane} (c : Cue) (lane : fl.lane? f = some v) :
      Steps e fl (.flight f c) (fl.put f (e.cueTurn c v.desk))
  /-- There is no such flight. -/
  | nobody {f : Nat} (c : Cue) (lane : fl.lane? f = none) : Steps e fl (.flight f c) fl
  | worker (w : Nat) : Steps e fl (.worker w) (e.workerTurn w fl)
  /-- A worker may be called that waits for the receiver. -/
  | receiver (w : Nat) (ws : List (Worker σ)) (ts : List Turn)
      (duties : ws.map Worker.duty = fl.workers.map Worker.duty) :
      Steps e fl (.receiver w) { fl with workers := ws, later := fl.later ++ ts }
  | workerDone (w : Nat) (ts : List Turn) (call : Call) (calls : ∀ t ∈ ts, t = .scheduler) :
      Steps e fl (.workerDone w)
        { fl with later := fl.later ++ ts, doneCount := fl.doneCount + 1, schedulerCall := call }
  | scheduler : Steps e fl .scheduler fl
  | errand (act : Activity Deed Unit) (g : Flight → Flight) (ts : List Turn)
      (watches : ∀ t ∈ ts, ∃ f, t = .flight f .watch) :
      Steps e fl (.errand act)
        { fl with
          around := (act.proceed fl.around).around
          seen := ((act.proceed fl.around).notes.map fun n => ⟨fl.now, none, n⟩).reverse ++
            fl.seen
          flights := fl.flights.map g
          later := fl.later ++ ts }
  | stop (ws : List (Worker σ)) (ts : List Turn) (doom : Bool)
      (duties : ws.map Worker.duty = fl.workers.map Worker.duty) :
      Steps e fl .stop { fl with workers := ws, later := fl.later ++ ts, doomed := doom }

/-- **What a turn does**, whosever it is. -/
theorem steps_step (e : Engine) (t : Turn) (fl : Floor σ) : fl.Steps e t (e.step t fl) := by
  cases t with
  | flight f c =>
    rw [Engine.step, atDesk]
    cases hv : fl.lane? f with
    | none =>
      rw [desk?_of_no_lane hv]
      exact .nobody c hv
    | some v =>
      rw [desk?_of_lane hv]
      exact .desk c hv
  | worker w => exact .worker w
  | receiver w =>
    obtain ⟨ws, ts, hcalls, hduties⟩ := callTeller_duties w fl
    rw [Engine.step, hcalls]
    exact .receiver w ws ts hduties
  | workerDone w =>
    obtain ⟨ts, call, hdone, hcalls⟩ := workerDoneTurn_eq w fl
    rw [Engine.step, hdone]
    exact .workerDone w ts call hcalls
  | scheduler => exact .scheduler
  | errand act =>
    obtain ⟨g, ts, hact, -, -, hts⟩ := disturb_eq act fl
    rw [Engine.step, hact]
    exact .errand act g ts fun t ht => (hts t ht).imp fun _ h => h.1
  | stop =>
    obtain ⟨ws, ts, doom, hstop, hduties⟩ := stopTurn_eq fl
    rw [Engine.step, hstop]
    exact .stop ws ts doom hduties

/-- What a turn shows: scripts begin only in turns on flights, and jobs are turned away only if
the run is canceled. -/
structure Tells (e : Engine) (t : Turn) (fl fl' : Floor σ) (ss : List Sighting) : Prop
    extends fl.Shows fl' ss where
  scripts : (∃ f c v, t = .flight f c ∧ fl.lane? f = some v ∧
    ss = fl.told f (e.cueTurn c v.desk).notes) ∨ ∀ s ∈ ss, s.note.begins = false
  refused : ∀ s ∈ ss, s.flight = none → ∀ r, s.note = .completed r →
    fl.around.canceled = true ∧ ∃ i ∈ fl.queue, r = e.resultAt i none fl.now .canceled []

/-- A turn that shows nothing tells nothing. -/
theorem tells_nothing (t : Turn) (h : fl.Shows fl' []) : Tells e t fl fl' [] :=
  { h with scripts := .inr (by simp), refused := by simp }

/-- A turn on a flight tells what was seen at the desk. -/
theorem tells_desk (e : Engine) (c : Cue) (hv : fl.lane? f = some v) :
    Tells e (.flight f c) fl (fl.put f (e.cueTurn c v.desk))
    (fl.told f (e.cueTurn c v.desk).notes) := by
  have hd : v.desk.Fits (e.cueTurn c v.desk) := e.fits_cueTurn rfl rfl (call_of_away hv) c
  refine { shows_put hv hd with scripts := .inl ⟨f, c, v, rfl, hv, rfl⟩, refused := ?_ }
  intro s hs hnone
  obtain ⟨n, -, rfl⟩ := List.mem_map.1 hs
  cases hnone

/-- What a worker shows as it looks for a job. -/
theorem tells_sought (t : Turn) (h : e.Sought w fl fl') : ∃ ss, Tells e t fl fl' ss := by
  obtain ⟨ss, hshows, hss⟩ := h.shows
  refine ⟨ss, { hshows with scripts := .inr fun s hs => ?_, refused := fun s hs _ r hr => ?_ }⟩
  · cases hss s hs with
    | deed flight d => exact Note.begins_of_outside d.outside_toNote
    | _ => rfl
  · cases hss s hs with
    | deed flight d => cases d <;> cases hr
    | answered jobId => cases hr
    | turnedAway canceled queued => cases hr
    | completed canceled queued => exact ⟨canceled, _, queued, (Note.completed.inj hr).symm⟩

/-- What a worker shows as it goes on. -/
theorem tells_carries {jobId : Text} {sq : Sequel} (t : Turn)
    (h : e.Carries w jobId fl sq fl') :
    ∃ ss, Tells e t fl fl' ss := by
  cases h with
  | stay => exact ⟨[], tells_nothing t (shows_nothing rfl rfl)⟩
  | stop => exact ⟨[], tells_nothing t (shows_nothing rfl rfl)⟩
  | free seeks => exact tells_sought t seeks.sought

/-- A worker tells what it does about its flight, and how it goes on. -/
theorem tells_worker (e : Engine) (hA : fl.Assigned) (w : Nat) :
    ∃ ss, Tells e (.worker w) fl (e.step (.worker w) fl) ss := by
  show ∃ ss, Tells e (.worker w) fl (e.workerTurn w fl) ss
  have hidle : fl.Shows (Engine.idled w fl) [] := shows_nothing rfl rfl
  generalize hfl' : e.workerTurn w fl = fl'
  cases hfl' ▸ e.serves_workerTurn hA w with
  | missing get => exact ⟨[], tells_nothing _ (shows_nothing rfl rfl)⟩
  | rest get done => exact ⟨[], tells_nothing _ hidle⟩
  | stop get duty => exact ⟨[], tells_nothing _ (shows_nothing rfl rfl)⟩
  | seek get busy off seeks =>
    obtain ⟨ss, h⟩ := tells_sought (.worker w) seeks.sought
    refine ⟨ss, { hidle.trans h.toShows with scripts := .inr ?_, refused := h.refused }⟩
    rcases h.scripts with ⟨_, _, _, ht, -⟩ | hnone
    · cases ht
    · exact hnone
  | @tend worker f v _ get lane own post next =>
    have hlane := Engine.lane?_idled lane own
    have htends := v.tends_tend e post
    have hput := shows_put hlane (htends.fits post)
    obtain ⟨ss, h⟩ := tells_carries (.worker w) next
    have haround : ((Engine.idled w fl).put f (v.tend e).1).around = fl.around := by
      rw [(putBack f _ _).around, htends.around]
      exact (around_of_lane hlane : v.idled.around = (Engine.idled w fl).around)
    have hqueue : ((Engine.idled w fl).put f (v.tend e).1).queue = fl.queue :=
      (putBack f _ _).queue
    refine ⟨_, { hput.trans h.toShows with scripts := .inr ?_, refused := ?_ }⟩
    -- Neither what the worker notes nor what it carries on with begins a script.
    · intro s hs
      rcases List.mem_append.1 hs with hs | hs
      · obtain ⟨n, hn, rfl⟩ := List.mem_map.1 hs
        have hof := htends.notes n hn
        cases n <;> first | rfl | cases hof
      · rcases h.scripts with ⟨_, _, _, ht, -⟩ | hnone
        · cases ht
        · exact hnone s hs
    · intro s hs hflight r hr
      rcases List.mem_append.1 hs with hs | hs
      · obtain ⟨n, -, rfl⟩ := List.mem_map.1 hs
        cases hflight
      · have hrefused := h.refused s hs hflight r hr
        rw [haround, hqueue, now, haround] at hrefused
        exact hrefused

/-- **What a turn shows**: scripts begin only in turns on flights. -/
theorem tells_step (e : Engine) (hA : fl.Assigned) (t : Turn) :
    ∃ ss, Tells e t fl (e.step t fl) ss := by
  have hsteps := steps_step e t fl
  generalize e.step t fl = fl' at hsteps
  cases hsteps with
  | desk c lane => exact ⟨_, tells_desk e c lane⟩
  | worker w => exact tells_worker e hA w
  | errand act g ts =>
    refine ⟨(act.proceed fl.around).notes.map fun n => ⟨fl.now, none, n⟩, ?_⟩
    -- An errand can cancel the run, but neither begins scripts nor gives results.
    refine { seen := rfl, time := by simp, now := act.proceed_now fl.around, canceled := ?_,
             scripts := .inr fun s hs => ?_, refused := fun s hs _ r hr => ?_ }
    · simpa [Function.comp_def] using act.proceed_canceled_eq fl.around
    · obtain ⟨n, hn, rfl⟩ := List.mem_map.1 hs
      exact Note.begins_of_outside (act.outside_proceed fl.around n hn)
    · obtain ⟨n, hn, rfl⟩ := List.mem_map.1 hs
      have hout := act.outside_proceed fl.around n hn
      have hr' : n = .completed r := hr
      rw [hr'] at hout
      cases hout
  | _ => exact ⟨[], tells_nothing _ (shows_nothing rfl rfl)⟩

end Floor

/-! ## Jobs -/

/-- The lane of a job that a worker has just taken. -/
def Lane.launched (i : JobInstance) (w : Nat) (s : Surroundings) : Lane :=
  { flight := Flight.launch i w s.now
    post := .watching
    call := .idle
    around := s
    ready := []
    later := [.cue .body, .cue .watch]
    seen := [(s.now, .log .debug (Engine.pickUpMessage w i))] }

namespace Floor

variable {e : Engine} {fl fl' m : Floor σ} {f w : Nat} {v : Lane} {worker : Worker σ}

/-- No turn to come concerns a flight that does not exist yet, if its worker is not called. -/
theorem filterMap_new (hn : fl.Numbered) (hw : fl.calls w = 0) (ts : List Turn)
    (hts : ∀ t ∈ ts, t ∈ fl.pending) :
    ts.filterMap (Turn.item? fl.flights.length w .watching) = [] := by
  rw [List.filterMap_eq_nil_iff]
  intro t ht
  have hp := hts t ht
  cases t with
  | flight g c =>
    have hg := hn.turns g c hp
    exact if_neg (by omega)
  | worker u =>
    refine if_neg fun hu => ?_
    have hcount : ¬Turn.isWorker w (.worker u) = true :=
      List.countP_eq_zero.1 hw _ hp
    exact hcount (decide_eq_true hu.1)
  | receiver u => rfl
  | workerDone u => rfl
  | scheduler => rfl
  | errand act => rfl
  | stop => rfl

/-- Nothing was seen of flights that are still to come. -/
theorem Numbered.seenOf_eq_nil (hn : fl.Numbered) {f : Nat} (hf : fl.flights.length ≤ f) :
    seenOf f fl.seen = [] := by
  unfold seenOf
  rw [List.filterMap_eq_nil_iff]
  intro s hs
  refine if_neg fun hflight => ?_
  exact absurd (hn.seen s (List.mem_reverse.1 hs) _ hflight) (Nat.not_lt.2 hf)

/-- **A job that is taken has a lane of its own.** -/
theorem lane?_launch_self (hn : fl.Numbered) (hs : fl.Staffed) (get : fl.workers[w]? =
    some worker)
    (idle : worker.call = .idle) (i : JobInstance) :
    (Engine.launch w i fl).lane? fl.flights.length = some (Lane.launched i w fl.around) := by
  have hcalls : fl.calls w = 0 := by rw [hs.called w worker get, if_pos idle]
  have hstand : standingAmong
      (fl.workers.modify w fun x => { x with duty := .watching fl.flights.length })
      fl.flights.length w = (.watching, .idle) := by
    simp [standingAmong, get, Worker.standing, Duty.postOn, idle]
  have hready := filterMap_new hn hcalls fl.ready fun t ht => List.mem_append_left _ ht
  have hlater := filterMap_new hn hcalls fl.later fun t ht => List.mem_append_right _ ht
  have hseen : seenOf fl.flights.length fl.seen = [] := hn.seenOf_eq_nil (Nat.le_refl _)
  rw [launch_eq]
  refine lane?_eq_some.2 ⟨Flight.launch i w fl.now, by simp, ?_⟩
  have hworker : (Flight.launch i w fl.now).worker = w := rfl
  unfold laneOf
  dsimp only
  rw [hworker, hstand, hready, List.filterMap_append, hlater]
  simp only [seenOf, List.reverse_cons, List.filterMap_append] at hseen ⊢
  rw [hseen]
  simp [Turn.item?, Lane.launched, now]

/-- What a turn does about the queue. -/
inductive Deals (e : Engine) (fl fl' : Floor σ) : Prop
  /-- Nothing. -/
  | keep (queue : fl'.queue = fl.queue) (length : fl'.flights.length = fl.flights.length)
  /-- The first job is taken. -/
  | take {i : JobInstance} {w : Nat} (queue : fl.queue = i :: fl'.queue)
      (running : fl.around.canceled = false)
      (length : fl'.flights.length = fl.flights.length + 1)
      (lane : fl'.lane? fl.flights.length = some (Lane.launched i w fl.around))
  /-- The first jobs are turned away. -/
  | drain {gone : List JobInstance} (canceled : fl.around.canceled = true)
      (queue : fl.queue = gone ++ fl'.queue) (length : fl'.flights.length = fl.flights.length)
      (refused : ∀ i ∈ gone,
        ⟨fl.now, none, .completed (e.resultAt i none fl.now .canceled [])⟩ ∈ fl'.seen)

/-- It does not matter when nothing of this has changed before. -/
theorem Deals.of_same (h : Deals e m fl') (hqueue : m.queue = fl.queue) (haround : m.around =
    fl.around)
    (hlength : m.flights.length = fl.flights.length) : Deals e fl fl' := by
  cases h with
  | keep queue length => exact .keep (queue.trans hqueue) (length.trans hlength)
  | take queue running length lane =>
    rw [hlength] at length lane
    rw [haround] at running lane
    exact .take (hqueue ▸ queue) running length lane
  | drain canceled queue length refused =>
    rw [now, haround] at refused
    exact .drain (haround ▸ canceled) (hqueue ▸ queue) (length.trans hlength) refused

theorem deals_sought (hn : fl.Numbered) (hs : fl.Staffed) (get : fl.workers[w]? = some worker)
    (idle : worker.call = .idle) (h : e.Sought w fl fl') : Deals e fl fl' := by
  cases h with
  | @nothing gone ns passes seen flights around =>
    have hlength : fl'.flights.length = fl.flights.length := by rw [flights]
    cases hc : fl.around.canceled with
    -- The worker has turned away some of what was queued.
    | true =>
      refine .drain hc passes.queue hlength fun i hi => ?_
      rw [seen, List.mem_append, List.mem_reverse]
      exact .inl (List.mem_map.2 ⟨_, passes.clears.completed hi, rfl⟩)
    | false =>
      have hgone : gone = [] := by
        by_contra hne
        rw [passes.canceled hne] at hc
        cases hc
      subst hgone
      exact .keep passes.queue.symm hlength
  | @job i rest ns m passes running launched =>
    have hcleared : (fl.cleared rest m ns).Staffed :=
      hs.cleared (fun hq => absurd (hq.symm.trans passes.queue) (by simp)) m ns
    subst launched
    refine .take (i := i) (w := w) ?_ running ?_
      (lane?_launch_self (hn.cleared rest m ns) hcleared get idle i)
    · rw [passes.queue, launch_eq]
      rfl
    · rw [launch_eq]
      simp [cleared, see]

theorem deals_carries {jobId : Text} {sq : Sequel} (hn : fl.Numbered) (hs : fl.Staffed)
    (get : fl.workers[w]? = some worker) (idle : worker.call = .idle)
    (h : e.Carries w jobId fl sq fl') : Deals e fl fl' := by
  cases h with
  | stay => exact .keep rfl rfl
  | stop => exact .keep rfl rfl
  | free seeks => exact deals_sought hn hs get idle seeks.sought

/-- A worker in its turn takes at most the first job. -/
theorem deals_worker (e : Engine) (hn : fl.Numbered) (hs : fl.Staffed) {w : Nat}
    {rest : List Turn}
    (hr : fl.ready = .worker w :: rest) :
    Deals e fl (e.step (.worker w) { fl with ready := rest }) := by
  have hn' : { fl with ready := rest }.Numbered := hn.pop hr
  have hnidle : (Engine.idled w { fl with ready := rest }).Numbered :=
    hn'.modifyWorker fun _ _ hf => hf
  show Deals e fl (e.workerTurn w { fl with ready := rest })
  generalize hfl' : e.workerTurn w { fl with ready := rest } = fl'
  cases hfl' ▸ e.serves_workerTurn hn'.assigned w with
  | missing get => exact .keep rfl rfl
  | rest get done => exact .keep rfl rfl
  | stop get duty => exact .keep rfl rfl
  | @seek worker quick _ get busy off seeks =>
    have hidle := hs.idle hr get
    have hget : (Engine.idled w { fl with ready := rest }).workers[w]? =
        some { worker with call := .idle } := by
      have get' : fl.workers[w]? = some worker := get
      simp [Engine.idled, modifyWorker, get']
    exact (deals_sought hnidle hidle.2 hget rfl seeks.sought).of_same rfl rfl rfl
  | @tend worker f v _ get lane own post next =>
    -- After its turn on a job, it goes on from the floor on which the flight was put back.
    have hidle := hs.idle hr get
    have hlane := Engine.lane?_idled lane own
    have htends := v.tends_tend e post
    have hfits := htends.fits post
    have hput := putBack f (v.tend e).1 (Engine.idled w { fl with ready := rest })
    have hnput := hput.numbered hlane hfits hnidle
    have hsput := hput.staffed hlane hfits hidle.2
    have hlput := lane?_put_self hlane hfits
    rw [Lane.put_eq] at hlput
    obtain ⟨worker', get', -, hcall⟩ := worker_of_lane hlput htends.post
    have hw : (v.tend e).1.flight.worker = w := htends.worker.trans own
    simp only [Lane.worker_heard, hw] at get'
    refine (deals_carries hnput hsput get' (hcall.trans htends.call) next).of_same hput.queue ?_
      hput.length
    rw [hput.around, htends.around]
    exact (around_of_lane lane : v.around = { fl with ready := rest }.around)

/-- **What a turn does about the queue**: only workers take jobs. -/
theorem deals_step (e : Engine) (hn : fl.Numbered) (hs : fl.Staffed) {t : Turn}
    {rest : List Turn}
    (hr : fl.ready = t :: rest) : Deals e fl (e.step t { fl with ready := rest }) := by
  have hsteps := steps_step e t { fl with ready := rest }
  generalize hfl' : e.step t { fl with ready := rest } = fl' at hsteps
  cases hsteps with
  | desk c lane => exact .keep (putBack _ _ _).queue (putBack _ _ _).length
  | worker w => exact hfl' ▸ deals_worker e hn hs hr
  | errand act g ts => exact .keep rfl (List.length_map _)
  | _ => exact .keep rfl rfl

end Floor

end Conveyor
