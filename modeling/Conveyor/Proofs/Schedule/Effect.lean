import Conveyor.Proofs.Schedule.Projection
import Mathlib.Data.List.TakeDrop

/-!
# What operations on the floor change

Putting a flight back changes the flight, its worker and the surroundings, lets things be seen,
and adds turns and timers of that flight; if the run is canceled meanwhile, turns of watches are
added. Everything else on the floor is as before.

- `Turn.isWorker`, `Turn.isWorkerDone`: turns of the crew.
- `Flight.timeoutDue`: when a job has taken too long.
- `Flight.Same`: the same job in flight.
- `Floor.PutBack`: what putting a flight back can change; `Floor.putBack` says that it changes no
  more.
-/

namespace Conveyor

variable {σ : Type}

/-- Does the scheduler learn that a worker is done? -/
def Turn.isWorkerDone : Turn → Bool
  | .workerDone _ => true
  | _ => false

/-- When a limit is over that begins at a time, if ever. -/
def Span.due (now : Nat) : Span → Option Due
  | .finite n => some (.time (now + n))
  | .undefined => some .undefined
  | .endless => none

/-- When a job has taken too long, if ever. -/
def Flight.timeoutDue (x : Flight) : Option Due :=
  (Span.ofSeconds x.job.timeoutSeconds).due x.takenAt

/-- The same job in flight, taken by the same worker at the same time. -/
def Flight.Same (x y : Flight) : Prop :=
  y.job = x.job ∧ y.worker = x.worker ∧ y.takenAt = x.takenAt

theorem Flight.Same.timeoutDue {x y : Flight} (h : x.Same y) : y.timeoutDue = x.timeoutDue := by
  rw [Flight.timeoutDue, Flight.timeoutDue, h.1, h.2.2]

theorem Flight.Same.trans {x y z : Flight} (h : x.Same y) (h' : y.Same z) : x.Same z :=
  ⟨h'.1.trans h.1, h'.2.1.trans h.2.1, h'.2.2.trans h.2.2⟩

theorem Flight.same_alerted (x : Flight) : x.Same x.alerted := by
  unfold Flight.alerted
  split <;> exact ⟨rfl, rfl, rfl⟩

namespace Floor

/-- The turns to come, in this round and in the next. -/
def pending (fl : Floor σ) : List Turn := fl.ready ++ fl.later

theorem setTimer_eq (span : Span) (a : Alarm) (fl : Floor σ) :
    fl.setTimer span a =
      match span.due fl.now with
      | some due => { fl with timers := Timer.insert ⟨due, a⟩ fl.timers }
      | none => fl := by
  cases span <;> rfl

end Floor

theorem Timer.mem_insert {t a : Timer} {ts : List Timer} :
    t ∈ Timer.insert a ts ↔ t = a ∨ t ∈ ts := by
  induction ts with
  | nil => simp [Timer.insert]
  | cons u rest ih =>
    unfold Timer.insert
    split
    · simp
    · simp only [List.mem_cons, ih]
      constructor
      · rintro (h | h | h)
        · exact .inr (.inl h)
        · exact .inl h
        · exact .inr (.inr h)
      · rintro (h | h | h)
        · exact .inr (.inl h)
        · exact .inl h
        · exact .inr (.inr h)

theorem Timer.mem_of_mem_expired {now : Nat} {ts : List Timer} {t : Timer} :
    (t ∈ (Timer.expired now ts).1 → t ∈ ts) ∧ (t ∈ (Timer.expired now ts).2 → t ∈ ts) := by
  rw [Timer.expired, List.span_eq_takeWhile_dropWhile]
  exact ⟨fun h => (List.takeWhile_sublist _).mem h, fun h => (List.dropWhile_sublist _).mem h⟩

/-- A timer that goes off is due. -/
theorem Timer.hasCome_of_mem_expired {now : Nat} {ts : List Timer} {t : Timer}
    (h : t ∈ (Timer.expired now ts).1) : t.due.hasCome now = true := by
  rw [Timer.expired, List.span_eq_takeWhile_dropWhile] at h
  exact List.all_eq_true.1 List.all_takeWhile t h

namespace Floor

/-! ## What was asked for -/

/-- What is asked for at a desk adds turns of the flight and of its worker, and changes its
timers. -/
theorem obey_eq (f w : Nat) (o : Order) (fl : Floor σ) :
    ∃ ts timers, fl.obey f w o = { fl with later := fl.later ++ ts, timers := timers } ∧
      (∀ t ∈ ts, (∃ c, t = .flight f c) ∨ t = .worker w) ∧
      (∀ u, ts.countP (Turn.isWorker u) = if u = w then [o].count .worker else 0) ∧
      (∀ t ∈ timers, t ∈ fl.timers ∨ ∃ span b, .set span b ∈ [o] ∧ t.alarm = .flight f b) := by
  cases o with
  | cue c => exact ⟨[.flight f c], fl.timers, rfl, by simp, by simp [Turn.isWorker], fun t ht =>
    .inl ht⟩
  | worker =>
    refine ⟨[.worker w], fl.timers, rfl, by simp, fun u => ?_, fun t ht => .inl ht⟩
    by_cases hu : u = w
    · simp [Turn.isWorker, hu]
    · simp [Turn.isWorker, hu, Ne.symm hu]
  | set span b =>
    rw [obey, setTimer_eq]
    cases span.due fl.now with
    | none => exact ⟨[], fl.timers, by simp, by simp, by simp, fun t ht => .inl ht⟩
    | some due =>
      refine ⟨[], _, by simp; rfl, by simp, by simp, fun t ht => ?_⟩
      rcases Timer.mem_insert.1 ht with rfl | ht
      · exact .inr ⟨span, b, List.mem_cons_self, rfl⟩
      · exact .inl ht
  | drop b =>
    refine ⟨[], Timer.cancel f b fl.timers, by simp [obey, dropTimer], by simp, by simp, ?_⟩
    exact fun t ht => .inl (List.mem_filter.1 ht).1

theorem obey_foldl (f w : Nat) (os : List Order) (fl : Floor σ) :
    ∃ ts timers, os.foldl (obey f w) fl = { fl with later := fl.later ++ ts, timers := timers } ∧
      (∀ t ∈ ts, (∃ c, t = .flight f c) ∨ t = .worker w) ∧
      (∀ u, ts.countP (Turn.isWorker u) = if u = w then os.count .worker else 0) ∧
      (∀ t ∈ timers, t ∈ fl.timers ∨ ∃ span b, .set span b ∈ os ∧ t.alarm = .flight f b) := by
  induction os generalizing fl with
  | nil => exact ⟨[], fl.timers, by simp, by simp, by simp, fun t ht => .inl ht⟩
  | cons o os ih =>
    obtain ⟨ts, timers, hone, hts, hcount, htimers⟩ := fl.obey_eq f w o
    obtain ⟨ts', timers', hall, hts', hcount', htimers'⟩ := ih (fl.obey f w o)
    rw [hone] at htimers'
    refine ⟨ts ++ ts', timers', ?_, fun t ht => ?_, fun u => ?_, fun t ht => ?_⟩
    · rw [List.foldl_cons, hall, hone]
      simp
    · exact (List.mem_append.1 ht).elim (hts t) (hts' t)
    · have hsplit : (o :: os).count .worker = [o].count .worker + os.count .worker :=
        @List.count_append _ _ _ [o] os
      rw [List.countP_append, hcount, hcount', hsplit]
      split
      · rfl
      · rfl
    · rcases htimers' t ht with ht | ⟨span, b, hb, ha⟩
      · refine (htimers t ht).imp_right ?_
        rintro ⟨span, b, hb, ha⟩
        exact ⟨span, b, List.mem_cons.2 (.inl (List.mem_singleton.1 hb)), ha⟩
      · exact .inr ⟨span, b, List.mem_cons_of_mem o hb, ha⟩

/-- New surroundings add at most turns of watches. -/
theorem moveTo_eq (s : Surroundings) (fl : Floor σ) :
    ∃ (g : Flight → Flight) (ts : List Turn), fl.moveTo s =
        { fl with around := s, flights := fl.flights.map g, later := fl.later ++ ts } ∧
      (∀ x : Flight, x.Same (g x)) ∧ (∀ x, (g x).body = x.body ∧ (g x).steps = x.steps) ∧
      (∀ t ∈ ts, ∃ f, t = .flight f .watch ∧ f < fl.flights.length) := by
  unfold moveTo
  dsimp only
  split
  · refine ⟨Flight.alerted, _, rfl, Flight.same_alerted, fun x => ?_, fun t ht => ?_⟩
    · unfold Flight.alerted
      split <;> exact ⟨rfl, rfl⟩
    · obtain ⟨f, hf, rfl⟩ := List.mem_map.1 ht
      rw [watching, List.mem_filter, List.mem_range] at hf
      exact ⟨f, rfl, hf.1⟩
  · exact ⟨id, [], by simp, fun x => ⟨rfl, rfl, rfl⟩, fun x => ⟨rfl, rfl⟩, by simp⟩

/-- Somebody outside does something: it is logged, and the floor moves to other surroundings. -/
theorem disturb_eq (act : Activity Deed Unit) (fl : Floor σ) :
    ∃ (g : Flight → Flight) (ts : List Turn), fl.disturb act =
        { fl with
          around := (act.proceed fl.around).around
          seen := ((act.proceed fl.around).notes.map fun n => ⟨fl.now, none, n⟩).reverse ++
            fl.seen
          flights := fl.flights.map g
          later := fl.later ++ ts } ∧
      (∀ x : Flight, x.Same (g x)) ∧ (∀ x, (g x).body = x.body ∧ (g x).steps = x.steps) ∧
      (∀ t ∈ ts, ∃ f, t = .flight f .watch ∧ f < fl.flights.length) :=
  moveTo_eq (act.proceed fl.around).around (fl.see none (act.proceed fl.around).notes)

/-! ## Putting a flight back -/

/-- What putting a flight back can change. -/
structure PutBack (f : Nat) (d : Desk) (fl fl' : Floor σ) : Prop where
  ready : fl'.ready = fl.ready
  around : fl'.around = d.around
  workers : fl'.workers = fl.workers.modify d.flight.worker (Worker.stand f d.post d.call)
  queue : fl'.queue = fl.queue
  doneCount : fl'.doneCount = fl.doneCount
  schedulerCall : fl'.schedulerCall = fl.schedulerCall
  doomed : fl'.doomed = fl.doomed
  receiver : fl'.receiver = fl.receiver
  memory : fl'.memory = fl.memory
  seen : fl'.seen = (d.notes.map fun n => ⟨fl.now, some f, n⟩).reverse ++ fl.seen
  length : fl'.flights.length = fl.flights.length
  /-- Only this flight changes, or its watch if the run is canceled. -/
  flights : ∃ g : Flight → Flight, (∀ x : Flight, x.Same (g x)) ∧
    fl'.flights = (fl.flights.set f d.flight).map g
  /-- Turns of flights on the floor are added, and of the worker if it is called. -/
  later : ∃ ts, fl'.later = fl.later ++ ts ∧
    (∀ t ∈ ts, (∃ g c, t = .flight g c ∧ (g = f ∨ g < fl.flights.length)) ∨
      t = .worker d.flight.worker) ∧
    ∀ w, ts.countP (Turn.isWorker w) = if w = d.flight.worker then d.orders.count .worker else 0
  timers : ∀ t ∈ fl'.timers, t ∈ fl.timers ∨ ∃ span b, .set span b ∈ d.orders ∧
    t.alarm = .flight f b

/-- **Putting a flight back changes no more than that.** -/
theorem putBack (f : Nat) (d : Desk) (fl : Floor σ) : PutBack f d fl (fl.put f d) := by
  obtain ⟨g, ts, hmove, hsame, -, hts⟩ := moveTo_eq d.around (fl.stored f d)
  obtain ⟨ts', timers, hobey, hts', hcount, htimers⟩ :=
    obey_foldl f d.flight.worker d.orders ((fl.stored f d).moveTo d.around)
  rw [hmove] at hobey htimers
  have hlength : (fl.stored f d).flights.length = fl.flights.length := by simp [stored]
  rw [put_eq, hmove, hobey]
  refine ⟨rfl, rfl, rfl, rfl, rfl, rfl, rfl, rfl, rfl, rfl, ?_, ⟨g, hsame, rfl⟩,
      ⟨ts ++ ts', ?_, ?_, ?_⟩,
    ?_⟩
  · simpa using hlength
  · rw [← List.append_assoc]
    rfl
  · intro t ht
    rcases List.mem_append.1 ht with ht | ht
    · obtain ⟨k, rfl, hk⟩ := hts t ht
      exact .inl ⟨k, .watch, rfl, .inr (hlength ▸ hk)⟩
    · rcases hts' t ht with ⟨c, rfl⟩ | rfl
      · exact .inl ⟨f, c, rfl, .inl rfl⟩
      · exact .inr rfl
  · intro w
    have hnone : ts.countP (Turn.isWorker w) = 0 := by
      rw [List.countP_eq_zero]
      intro t ht
      obtain ⟨k, rfl, -⟩ := hts t ht
      simp [Turn.isWorker]
    rw [List.countP_append, hnone, Nat.zero_add, hcount]
  · exact htimers

/-! ## Taking a job -/

/-- A job that is taken gets the next number; its body and its watch are called, and its timeout
runs. -/
theorem launch_eq (w : Nat) (i : JobInstance) (fl : Floor σ) :
    Engine.launch w i fl =
      { fl with
        seen := ⟨fl.now, some fl.flights.length, .log .debug (Engine.pickUpMessage w i)⟩
          :: fl.seen
        flights := fl.flights ++ [Flight.launch i w fl.now]
        workers := fl.workers.modify w fun x => { x with duty := .watching fl.flights.length }
        later :=
          fl.later ++ [.flight fl.flights.length .body, .flight fl.flights.length .watch]
        timers :=
          match (Flight.launch i w fl.now).timeoutDue with
          | some due => Timer.insert ⟨due, .flight fl.flights.length .timeout⟩ fl.timers
          | none => fl.timers } := by
  unfold Engine.launch Flight.timeoutDue
  simp only [setTimer_eq, push, List.append_assoc, List.singleton_append]
  show (match (Span.ofSeconds i.timeoutSeconds).due fl.now with
    | some due => _
    | none => _) = _
  have hsame : (Flight.launch i w fl.now).job = i ∧ (Flight.launch i w fl.now).takenAt =
      fl.now :=
    ⟨rfl, rfl⟩
  rw [hsame.1, hsame.2]
  cases (Span.ofSeconds i.timeoutSeconds).due fl.now <;> rfl

end Floor

end Conveyor
