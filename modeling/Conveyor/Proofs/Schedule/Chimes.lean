import Conveyor.Proofs.Schedule.Runs

/-!
# Timers in order

As long as no limit is undefined, timers stand in the order in which they go off. Then a timer of
one flight is never in the way of those of another, and each flight has its own timers as if it
were alone.

- `Timer.InOrder`: timers in the order in which they go off.
- `Timer.insert_eq`, `Timer.expired_eq`: setting a timer, and those that go off, in that order.
- `Chime`, `Timer.chimes`: the timers of one flight; `Chime.obey`: what a turn on it does with
  them.
- `Floor.Asks`, `Floor.Winds`, `Floor.timers_step`: what a turn does with the timers.
- `Floor.chimes_step_own`, `Floor.chimes_step_other`: **the timers of a flight change by its own
  turns only**.
- `Floor.InTime`, `Floor.InTime.moves`: a floor on which no limit is undefined stays so.
-/

namespace Conveyor

variable {σ : Type}

/-! ## Due times -/

namespace Due

/-- A defined time. -/
theorem eq_time {due : Due} (h : due ≠ .undefined) : ∃ t, due = .time t := by
  cases due with
  | time t => exact ⟨t, rfl⟩
  | undefined => exact absurd rfl h

@[simp] theorem before_time (t u : Int) : (time t).before (time u) = decide (t < u) := rfl

@[simp] theorem hasCome_time (now : Nat) (t : Int) : (time t).hasCome now = decide (t ≤ now) :=
  rfl

end Due

theorem Span.due_ne_undefined {span : Span} (h : span.isDefined = true) {now : Nat} {due : Due}
    (hd : span.due now = some due) : due ≠ .undefined := by
  cases span with
  | finite n =>
    cases hd
    exact fun hc => by cases hc
  | endless => cases hd
  | undefined => cases h

namespace Timer

/-- No timer is undefined, and none is due before those in front of it. -/
structure InOrder (ts : List Timer) : Prop where
  defined : ∀ t ∈ ts, t.due ≠ .undefined
  sorted : ts.Pairwise fun a b => b.due.before a.due = false

theorem inOrder_nil : InOrder [] := ⟨by simp, .nil⟩

theorem InOrder.filter {ts : List Timer} (h : InOrder ts) (p : Timer → Bool) :
    InOrder (ts.filter p) :=
  ⟨fun t ht => h.defined t (List.mem_filter.1 ht).1, h.sorted.filter p⟩

theorem InOrder.tail {t : Timer} {ts : List Timer} (h : InOrder (t :: ts)) : InOrder ts :=
  ⟨fun u hu => h.defined u (List.mem_cons_of_mem t hu), (List.pairwise_cons.1 h.sorted).2⟩

/-- What is due before the first timer is due before all. -/
theorem InOrder.before_all {u : Timer} {ts : List Timer} (h : InOrder (u :: ts)) {due : Due}
    (hb : due.before u.due = true) : ∀ v ∈ u :: ts, due.before v.due = true := by
  intro v hv
  rcases List.mem_cons.1 hv with rfl | hv'
  · exact hb
  · obtain ⟨tu, hu⟩ := Due.eq_time (h.defined u List.mem_cons_self)
    obtain ⟨tv, hv''⟩ := Due.eq_time (h.defined v hv)
    have hle := (List.pairwise_cons.1 h.sorted).1 v hv'
    cases due with
    | undefined => cases hb
    | time t =>
      rw [hu, hv''] at hle
      rw [hu] at hb
      rw [hv'']
      simp only [Due.before_time, decide_eq_true_eq, decide_eq_false_iff_not] at *
      omega

/-- **A timer is set behind those that are not due later, and in front of the others.** -/
theorem insert_eq {ts : List Timer} (h : InOrder ts) (t : Timer) :
    t.insert ts = ts.filter (fun u => !t.due.before u.due) ++
      t :: ts.filter fun u => t.due.before u.due := by
  induction ts with
  | nil => rfl
  | cons u rest ih =>
    unfold insert
    cases hb : t.due.before u.due with
    -- It is due before the first, and so before all of them.
    | true =>
      have hall := h.before_all hb
      have hnone : (u :: rest).filter (fun v => !t.due.before v.due) = [] := by
        rw [List.filter_eq_nil_iff]
        intro v hv
        simp [hall v hv]
      have hsome : (u :: rest).filter (fun v => t.due.before v.due) = u :: rest :=
        List.filter_eq_self.2 hall
      rw [if_pos (List.all_eq_true.2 hall), hnone, hsome]
      rfl
    | false =>
      have hnot : ¬((u :: rest).all fun v => t.due.before v.due) = true := by
        intro hall
        have hu := List.all_eq_true.1 hall u List.mem_cons_self
        rw [hb] at hu
        cases hu
      rw [if_neg hnot, ih h.tail]
      simp [hb]

theorem InOrder.insert {ts : List Timer} (h : InOrder ts) {t : Timer} (ht : t.due ≠ .undefined) :
    InOrder (t.insert ts) := by
  refine ⟨fun u hu => ?_, ?_⟩
  · rcases mem_insert.1 hu with rfl | hu
    · exact ht
    · exact h.defined u hu
  -- No time is undefined, so the order of the timers is that of numbers.
  · rw [insert_eq h, List.pairwise_append]
    refine ⟨h.sorted.filter _, List.pairwise_cons.2 ⟨fun u hu => ?_, h.sorted.filter _⟩,
      fun a ha b hb => ?_⟩
    · obtain ⟨hmem, hlater⟩ := List.mem_filter.1 hu
      obtain ⟨tt, htt⟩ := Due.eq_time ht
      obtain ⟨tu, htu⟩ := Due.eq_time (h.defined u hmem)
      rw [htt, htu] at hlater ⊢
      simp only [Due.before_time, decide_eq_true_eq, decide_eq_false_iff_not] at *
      omega
    · obtain ⟨hamem, hsooner⟩ := List.mem_filter.1 ha
      obtain ⟨ta, hta⟩ := Due.eq_time (h.defined a hamem)
      obtain ⟨tt, htt⟩ := Due.eq_time ht
      rcases List.mem_cons.1 hb with rfl | hb
      · simpa using hsooner
      · obtain ⟨hbmem, hlater⟩ := List.mem_filter.1 hb
        obtain ⟨tb, htb⟩ := Due.eq_time (h.defined b hbmem)
        rw [hta, htt] at hsooner
        rw [htt, htb] at hlater
        rw [hta, htb]
        simp only [Due.before_time, Bool.not_eq_true', decide_eq_true_eq,
          decide_eq_false_iff_not] at *
        omega

/-- **The timers that go off are those whose time has come.** -/
theorem expired_eq {ts : List Timer} (h : InOrder ts) (now : Nat) :
    expired now ts =
      (ts.filter fun t => t.due.hasCome now, ts.filter fun t => !t.due.hasCome now) := by
  unfold expired
  rw [List.span_eq_takeWhile_dropWhile]
  induction ts with
  | nil => rfl
  | cons u rest ih =>
    obtain ⟨htake, hdrop⟩ := Prod.mk.inj (ih h.tail)
    cases hc : u.due.hasCome now with
    | true => simp [hc, htake, hdrop]
    | false =>
      -- Those behind it are not due before it.
      have hnone : ∀ v ∈ rest, v.due.hasCome now = false := by
        intro v hv
        have hle := (List.pairwise_cons.1 h.sorted).1 v hv
        obtain ⟨tu, hu⟩ := Due.eq_time (h.defined u List.mem_cons_self)
        obtain ⟨tv, hv'⟩ := Due.eq_time (h.defined v (List.mem_cons_of_mem u hv))
        rw [hu] at hc
        rw [hu, hv'] at hle
        rw [hv']
        simp only [Due.before_time, Due.hasCome_time, decide_eq_false_iff_not] at *
        omega
      have hempty : rest.filter (fun t => t.due.hasCome now) = [] := by
        rw [List.filter_eq_nil_iff]
        intro v hv
        simp [hnone v hv]
      have hall : rest.filter (fun t => !t.due.hasCome now) = rest := by
        rw [List.filter_eq_self]
        intro v hv
        simp [hnone v hv]
      simp [hc, hempty, hall]

/-- The clock moves on no further than to the first timer. -/
theorem wakeTime_le {ts : List Timer} (h : InOrder ts) (now : Nat) {t : Timer} (ht : t ∈ ts)
    {u : Int}
    (hu : t.due = .time u) : (wakeTime now ts : Int) ≤ max (now : Int) u := by
  cases ts with
  | nil => cases ht
  | cons first rest =>
    obtain ⟨v, hv⟩ := Due.eq_time (h.defined first List.mem_cons_self)
    have hle : v ≤ u := by
      rcases List.mem_cons.1 ht with rfl | ht
      · rw [hv] at hu
        cases hu
        exact Int.le_refl u
      · have hsorted := (List.pairwise_cons.1 h.sorted).1 t ht
        rw [hu, hv] at hsorted
        simp only [Due.before_time, decide_eq_false_iff_not] at hsorted
        omega
    simp only [wakeTime, hv]
    omega

end Timer

/-! ## The timers of one flight -/

/-- A timer of a flight. -/
structure Chime where
  due : Due
  bell : Bell
  deriving DecidableEq, Repr

/-- A timer, if it is one of this flight. -/
def Timer.chime? (f : Nat) (t : Timer) : Option Chime :=
  match t.alarm with
  | .flight g b => if g = f then some ⟨t.due, b⟩ else none
  | _ => none

/-- The timers of a flight. -/
def Timer.chimes (f : Nat) (ts : List Timer) : List Chime := ts.filterMap (Timer.chime? f)

namespace Chime

/-- Set a timer behind those that are not due later. -/
def insert (c : Chime) (cs : List Chime) : List Chime :=
  cs.filter (fun b => !c.due.before b.due) ++ c :: cs.filter fun b => c.due.before b.due

/-- Do what is asked for at the desk of the flight. -/
def obey (now : Nat) (cs : List Chime) : Order → List Chime
  | .set span b =>
    match span.due now with
    | some due => insert ⟨due, b⟩ cs
    | none => cs
  | .drop b => cs.filter fun c => c.bell ≠ b
  | _ => cs

end Chime

/-- No undefined limit is asked for. -/
def Order.isTimely : Order → Bool
  | .set span _ => span.isDefined
  | _ => true

namespace Timer

/-- Do what is asked for at the desk of a flight, as far as it concerns timers. -/
def obey (f now : Nat) (ts : List Timer) : Order → List Timer
  | .set span b =>
    match span.due now with
    | some due => insert ⟨due, .flight f b⟩ ts
    | none => ts
  | .drop b => cancel f b ts
  | _ => ts

theorem chime?_eq_some {f : Nat} {t : Timer} {c : Chime} :
    chime? f t = some c ↔ t = ⟨c.due, .flight f c.bell⟩ := by
  obtain ⟨due, alarm⟩ := t
  obtain ⟨due', b⟩ := c
  cases alarm with
  | flight g k =>
    by_cases hg : g = f
    · simp [chime?, hg]
    · simp [chime?, hg]
  | receiver w => simp [chime?]
  | errand act => simp [chime?]
  | stop => simp [chime?]

/-- Some of the timers of a flight, chosen among all timers or among its own. -/
theorem chimes_filter {f : Nat} {p : Timer → Bool} {q : Chime → Bool}
    (h : ∀ c : Chime, p ⟨c.due, .flight f c.bell⟩ = q c) (ts : List Timer) :
    chimes f (ts.filter p) = (chimes f ts).filter q := by
  induction ts with
  | nil => rfl
  | cons t ts ih =>
    unfold chimes at ih ⊢
    cases hc : chime? f t with
    | none =>
      rw [List.filterMap_cons_none hc, List.filter_cons]
      split
      · rw [List.filterMap_cons_none hc, ih]
      · exact ih
    | some c =>
      rw [List.filterMap_cons_some hc, List.filter_cons, List.filter_cons, ← h c,
        ← chime?_eq_some.1 hc]
      split
      · rw [List.filterMap_cons_some hc, ih]
      · exact ih

theorem chimes_insert_self {ts : List Timer} (h : InOrder ts) (f : Nat) (due : Due) (b : Bell) :
    chimes f (insert ⟨due, .flight f b⟩ ts) = Chime.insert ⟨due, b⟩ (chimes f ts) := by
  have hsooner := chimes_filter (f := f) (p := fun u => !due.before u.due)
    (q := fun c => !due.before c.due) (fun _ => rfl) ts
  have hlater := chimes_filter (f := f) (p := fun u => due.before u.due)
    (q := fun c => due.before c.due) (fun _ => rfl) ts
  rw [insert_eq h]
  unfold chimes at hsooner hlater ⊢
  rw [List.filterMap_append, List.filterMap_cons_some (b := ⟨due, b⟩) (by simp [chime?]),
      hsooner,
    hlater]
  rfl

theorem chimes_insert_other {ts : List Timer} {f : Nat} {t : Timer} (ht : chime? f t = none) :
    chimes f (t.insert ts) = chimes f ts := by
  induction ts with
  | nil => simp [insert, chimes, ht]
  | cons u rest ih =>
    unfold insert
    split
    · exact List.filterMap_cons_none ht
    · unfold chimes at ih ⊢
      rw [List.filterMap_cons, List.filterMap_cons, ih]

theorem chimes_cancel_self (f : Nat) (b : Bell) (ts : List Timer) :
    chimes f (cancel f b ts) = (chimes f ts).filter fun c => c.bell ≠ b :=
  chimes_filter (fun c => by simp [Alarm.rings]) ts

theorem chimes_cancel_other {f g : Nat} (hne : g ≠ f) (b : Bell) (ts : List Timer) :
    chimes f (cancel g b ts) = chimes f ts := by
  have hkeep : chimes f (cancel g b ts) = (chimes f ts).filter fun _ => true :=
    chimes_filter (fun c => by simp [Alarm.rings, hne.symm]) ts
  rw [hkeep, List.filter_eq_self.2 fun _ _ => rfl]

/-- What is asked for at a desk, done in order. -/
theorem obey_foldl_self {ts : List Timer} (h : InOrder ts) (f now : Nat) {os : List Order}
    (hos : ∀ o ∈ os, o.isTimely = true) :
    InOrder (os.foldl (obey f now) ts) ∧
      chimes f (os.foldl (obey f now) ts) = os.foldl (Chime.obey now) (chimes f ts) := by
  induction os generalizing ts with
  | nil => exact ⟨h, rfl⟩
  | cons o os ih =>
    have hrest : ∀ p ∈ os, p.isTimely = true := fun p hp => hos p (List.mem_cons_of_mem o hp)
    -- What one order does.
    have hone : InOrder (obey f now ts o) ∧
        chimes f (obey f now ts o) = Chime.obey now (chimes f ts) o := by
      cases o with
      | cue c => exact ⟨h, rfl⟩
      | worker => exact ⟨h, rfl⟩
      | set span b =>
        simp only [obey, Chime.obey]
        cases hd : span.due now with
        | none => exact ⟨h, rfl⟩
        | some due =>
          exact ⟨h.insert (Span.due_ne_undefined (hos _ List.mem_cons_self) hd),
            chimes_insert_self h f due b⟩
      | drop b => exact ⟨h.filter _, chimes_cancel_self f b ts⟩
    rw [List.foldl_cons, List.foldl_cons, ← hone.2]
    exact ih hone.1 hrest

theorem obey_foldl_other {f g : Nat} (hne : g ≠ f) (now : Nat) (os : List Order)
    (ts : List Timer) :
    chimes f (os.foldl (obey g now) ts) = chimes f ts := by
  induction os generalizing ts with
  | nil => rfl
  | cons o os ih =>
    rw [List.foldl_cons, ih]
    cases o with
    | cue c => rfl
    | worker => rfl
    | set span b =>
      simp only [obey]
      cases hd : span.due now with
      | none => rfl
      | some due => exact chimes_insert_other (if_neg hne)
    | drop b => exact chimes_cancel_other hne b ts

end Timer

/-! ## Limits that are defined -/

/-- The limits of an engine are defined. -/
structure Engine.Timely (e : Engine) : Prop where
  grace : e.grace.isDefined = true
  patience : e.patience.isDefined = true

/-- The time limit of a job is defined. -/
def JobInstance.isTimely (i : JobInstance) : Bool := (Span.ofSeconds i.timeoutSeconds).isDefined

/-- Set the timeout of a job that is taken. -/
def Timer.setTimeout (f now : Nat) (i : JobInstance) (ts : List Timer) : List Timer :=
  match (Span.ofSeconds i.timeoutSeconds).due now with
  | some due => Timer.insert ⟨due, .flight f .timeout⟩ ts
  | none => ts

theorem Timer.InOrder.setTimeout {ts : List Timer} (h : Timer.InOrder ts) {i : JobInstance}
    (hi : i.isTimely = true) (f now : Nat) : Timer.InOrder (Timer.setTimeout f now i ts) := by
  unfold Timer.setTimeout
  split
  · rename_i due hdue
    exact h.insert (Span.due_ne_undefined hi hdue)
  · exact h

/-- The desk after a turn in a lane. -/
def Lane.deskAfter (e : Engine) (v : Lane) : Item → Desk
  | .cue c => e.cueTurn c v.desk
  | .worker => (v.tend e).1

open Desk in
/-- A turn in a lane asks for no undefined limit. -/
theorem Lane.isTimely_deskAfter {e : Engine} (he : e.Timely) (v : Lane) (i : Item) :
    ∀ o ∈ (v.deskAfter e i).orders, o.isTimely = true := by
  cases i with
  | worker =>
    by_cases hp : v.post = .away
    · intro o ho
      simp [deskAfter, tend, hp, desk] at ho
    · intro o ho
      have hof := (v.tends_tend e hp).orders o ho
      cases o with
      | cue c => rfl
      | worker => rfl
      | drop b => rfl
      | set span b =>
        cases b with
        | patience =>
          rw [of_decide_eq_true hof]
          exact he.patience
        | body => simp [Order.ofWorker] at hof
        | release => simp [Order.ofWorker] at hof
        | grace => simp [Order.ofWorker] at hof
        | timeout => simp [Order.ofWorker] at hof
  | cue c =>
    intro o ho
    -- A flight sets the timers of its body, its release and its grace; none of them is
    -- undefined.
    rcases e.orders_cueTurn rfl rfl c ho with hof | rfl | rfl
    · cases o with
      | cue c => rfl
      | worker => rfl
      | drop b => rfl
      | set span b =>
        cases b with
        | body => exact hof
        | release => exact hof
        | grace =>
          rw [of_decide_eq_true hof]
          exact he.grace
        | timeout => cases hof
        | patience => cases hof
    · rfl
    · rfl

/-! ## Timers on the floor -/

namespace Floor

variable {e : Engine} {fl fl' : Floor σ} {f w : Nat} {v : Lane}

theorem timers_obey_foldl (f w : Nat) (os : List Order) (fl : Floor σ) :
    (os.foldl (obey f w) fl).timers = os.foldl (Timer.obey f fl.now) fl.timers := by
  induction os generalizing fl with
  | nil => rfl
  | cons o os ih =>
    have hone : (fl.obey f w o).timers = Timer.obey f fl.now fl.timers o ∧
        (fl.obey f w o).now = fl.now := by
      cases o with
      | cue c => exact ⟨rfl, rfl⟩
      | worker => exact ⟨rfl, rfl⟩
      | set span b =>
        simp only [obey, Timer.obey, setTimer_eq]
        cases span.due fl.now with
        | none => exact ⟨rfl, rfl⟩
        | some due => exact ⟨rfl, rfl⟩
      | drop b => exact ⟨rfl, rfl⟩
    rw [List.foldl_cons, List.foldl_cons, ih, hone.1, hone.2]

theorem timers_moveTo (s : Surroundings) (fl : Floor σ) : (fl.moveTo s).timers = fl.timers := by
  obtain ⟨g, ts, hmove, -⟩ := moveTo_eq s fl
  rw [hmove]

theorem timers_put (f : Nat) {d : Desk} (fl : Floor σ) (hnow : d.around.now = fl.now) :
    (fl.put f d).timers = d.orders.foldl (Timer.obey f fl.now) fl.timers := by
  obtain ⟨g, ts, hmove, -⟩ := moveTo_eq d.around (fl.stored f d)
  have htime : ((fl.stored f d).moveTo d.around).now = fl.now := by
    rw [hmove]
    exact hnow
  rw [put_eq, timers_obey_foldl, timers_moveTo, htime]
  rfl

/-- What a turn asks for about timers is what is asked for at the desk of its lane, if it has
one. -/
inductive Asks (e : Engine) (fl : Floor σ) (t : Turn) : List Timer → Prop
  /-- The turn is in no lane. -/
  | nothing (nobody : ∀ f v, fl.lane? f = some v → t.item? f v.flight.worker v.post = none) :
      Asks e fl t fl.timers
  | own {f : Nat} {v : Lane} {i : Item} (lane : fl.lane? f = some v)
      (item : t.item? f v.flight.worker v.post = some i) :
      Asks e fl t ((v.deskAfter e i).orders.foldl (Timer.obey f fl.now) fl.timers)

/-- The timers are these, but for the timeout of a job that is taken, or a timer of the
receiver. -/
inductive Winds (fl : Floor σ) (ts : List Timer) (fl' : Floor σ) : Prop
  | same (timers : fl'.timers = ts) (length : fl'.flights.length = fl.flights.length)
  | wait {due w : Nat} (timers : fl'.timers = Timer.insert ⟨.time due, .receiver w⟩ ts)
      (length : fl'.flights.length = fl.flights.length)
  | take {i : JobInstance} {rest : List JobInstance} (queue : fl.queue = i :: rest)
      (timers : fl'.timers = Timer.setTimeout fl.flights.length fl.now i ts)

/-- A worker that looks for a job sets at most the timeout of the job that it takes, or a timer
of the receiver. -/
theorem winds_seeks {told : Option Text} {quick : Bool} (h : e.Seeks w told fl quick fl') :
    fl.Winds fl.timers fl' := by
  cases h with
  | leave passes => exact .same rfl rfl
  | @take i rest ns m passes running =>
    rw [launch_eq]
    exact .take passes.queue rfl
  | stop passes => exact .same rfl rfl
  | @wait gone rest ns m jobId span next passes =>
    obtain ⟨ws, ts, timers, hattend, -, -, htimers⟩ :=
      Engine.attend_eq w jobId span next (fl.cleared rest m ns)
    rw [hattend]
    rcases htimers with rfl | rfl
    · exact .same rfl rfl
    · exact .wait rfl rfl

theorem winds_carries {jobId : Text} {sq : Sequel} (h : e.Carries w jobId fl sq fl') :
    fl.Winds fl.timers fl' := by
  cases h with
  | stay => exact .same rfl rfl
  | stop => exact .same rfl rfl
  | free seeks => exact winds_seeks seeks

/-- A worker that has no job in flight has no turn in any lane. -/
theorem item?_worker_eq_none {w : Nat}
    (h : ∀ worker, fl.workers[w]? = some worker → ∀ f, worker.duty.postOn f = .away) :
    ∀ f v, fl.lane? f = some v → (Turn.worker w).item? f v.flight.worker v.post = none := by
  intro f v hv
  refine if_neg fun ⟨hw, hp⟩ => ?_
  obtain ⟨worker, hget, hpost, -⟩ := worker_of_lane hv hp
  rw [← hw] at hget
  exact hp (hpost.symm.trans (h worker hget f))

/-- A turn of a worker on its job, after which it may take another one. -/
theorem winds_tend (lane : fl.lane? f = some v) (own : v.flight.worker = w)
    (post : v.post ≠ .away)
    (next : e.Carries w v.flight.job.id ((Engine.idled w fl).put f (v.tend e).1)
        (v.tend e).2 fl') :
    fl.Winds ((v.tend e).1.orders.foldl (Timer.obey f fl.now) fl.timers) fl' := by
  have hnow : (v.tend e).1.around.now = (Engine.idled w fl).now := by
    rw [(v.tends_tend e post).around]
    exact congrArg Surroundings.now (around_of_lane (Engine.lane?_idled lane own))
  have hput := putBack f (v.tend e).1 (Engine.idled w fl)
  have htimers := timers_put f (Engine.idled w fl) hnow
  have hfloor : ((Engine.idled w fl).put f (v.tend e).1).now = fl.now := by
    show ((Engine.idled w fl).put f (v.tend e).1).around.now = fl.now
    rw [hput.around]
    exact hnow
  cases winds_carries next with
  | same timers length => exact .same (timers.trans htimers) (length.trans hput.length)
  | wait timers length =>
    exact .wait (timers.trans (by rw [htimers]; rfl)) (length.trans hput.length)
  | take queue timers =>
    refine .take (hput.queue.symm.trans queue) ?_
    rw [timers, hput.length, htimers, hfloor]
    rfl

/-- A worker is at its desk, or looks for a job. -/
theorem timers_step_worker (e : Engine) (hA : fl.Assigned) (w : Nat) :
    ∃ ts, fl.Asks e (.worker w) ts ∧ fl.Winds ts (e.step (.worker w) fl) := by
  have hserves := e.serves_workerTurn hA w
  show ∃ ts, _ ∧ fl.Winds ts (e.workerTurn w fl)
  generalize e.workerTurn w fl = fl' at hserves
  cases hserves with
  | missing get =>
    refine ⟨_, .nothing (item?_worker_eq_none fun worker hget => ?_), .same rfl rfl⟩
    rw [get] at hget
    cases hget
  | @rest worker get done =>
    -- Without a flight the turn is not that of any lane.
    refine ⟨_, .nothing (item?_worker_eq_none fun worker' hget f => ?_), .same rfl rfl⟩
    rw [get] at hget
    obtain rfl := Option.some.inj hget
    cases hduty : worker.duty with
    | done stopped => rfl
    | _ =>
      rw [hduty] at done
      cases done
  | @stop worker get duty =>
    refine ⟨_, .nothing (item?_worker_eq_none fun worker' hget f => ?_), .same rfl rfl⟩
    rw [get] at hget
    rw [← Option.some.inj hget, duty]
    rfl
  | @seek worker quick _ get busy off seeks =>
    refine ⟨_, .nothing (item?_worker_eq_none fun worker' hget f => ?_), ?_⟩
    · rw [get] at hget
      rw [← Option.some.inj hget]
      exact off f
    · cases winds_seeks seeks with
      | same timers length => exact .same timers length
      | wait timers length => exact .wait timers length
      | take queue timers => exact .take queue timers
  | @tend worker f v _ get lane own post next =>
    have hitem : (Turn.worker w).item? f v.flight.worker v.post = some .worker := by
      simp [Turn.item?, own, post]
    exact ⟨_, .own lane hitem, winds_tend lane own post next⟩

/-- **What a turn does with the timers**: a turn in a lane does what was asked for at its desk,
and then at most a timeout is set. -/
theorem timers_step (e : Engine) (hA : fl.Assigned) (t : Turn) :
    ∃ ts, fl.Asks e t ts ∧ fl.Winds ts (e.step t fl) := by
  have hsteps := steps_step e t fl
  generalize e.step t fl = fl' at hsteps
  cases hsteps with
  | @desk f v c lane =>
    have hfits := e.fits_cueTurn (d := v.desk) rfl rfl (call_of_away lane) c
    have hnow : (e.cueTurn c v.desk).around.now = fl.now := by
      rw [hfits.now]
      exact congrArg Surroundings.now (around_of_lane lane)
    exact ⟨_, .own lane (i := .cue c) (by simp [Turn.item?]),
      .same (timers_put f fl hnow) (putBack f _ fl).length⟩
  | @nobody f c lane =>
    -- The message is to no lane.
    refine ⟨_, .nothing fun g u hu => if_neg fun hg => ?_, .same rfl rfl⟩
    rw [← hg, lane] at hu
    cases hu
  | worker w => exact timers_step_worker e hA w
  | errand act g ts => exact ⟨_, .nothing fun _ _ _ => rfl, .same rfl (List.length_map _)⟩
  | _ => exact ⟨_, .nothing fun _ _ _ => rfl, .same rfl rfl⟩

/-- A turn belongs to one flight only. -/
theorem item?_unique {g : Nat} {u : Lane} {t : Turn} {i j : Item} (hv : fl.lane? f = some v)
    (hu : fl.lane? g = some u) (hi : t.item? f v.flight.worker v.post = some i)
    (hj : t.item? g u.flight.worker u.post = some j) : g = f ∧ j = i := by
  cases t with
  | flight k c =>
    have hif : k = f ∧ Item.cue c = i := by simpa [Turn.item?] using hi
    have hig : k = g ∧ Item.cue c = j := by simpa [Turn.item?] using hj
    exact ⟨hig.1.symm.trans hif.1, hig.2.symm.trans hif.2⟩
  | worker w =>
    have hif : (w = v.flight.worker ∧ v.post ≠ .away) ∧ Item.worker = i := by
      simpa [Turn.item?] using hi
    have hig : (w = u.flight.worker ∧ u.post ≠ .away) ∧ Item.worker = j := by
      simpa [Turn.item?] using hj
    exact ⟨flight_unique hv hu hif.1.2 hig.1.2 (hig.1.1.symm.trans hif.1.1),
      hig.2.symm.trans hif.2⟩
  | receiver w => cases hi
  | workerDone w => cases hi
  | scheduler => cases hi
  | errand act => cases hi
  | stop => cases hi

/-- A timeout that is set for a job that is taken is none of the flights before. -/
theorem chimes_new (hv : fl.lane? f = some v) (i : JobInstance) (ts : List Timer) :
    Timer.chimes f (Timer.setTimeout fl.flights.length fl.now i ts) = Timer.chimes f ts := by
  unfold Timer.setTimeout
  split
  · exact Timer.chimes_insert_other (if_neg (Nat.ne_of_gt (length_of_lane hv)))
  · rfl

/-- **A turn of somebody else does not change the timers of a flight.** -/
theorem chimes_step_other (e : Engine) (hA : fl.Assigned) (hv : fl.lane? f = some v) {t : Turn}
    (ht : t.item? f v.flight.worker v.post = none) :
    Timer.chimes f (e.step t fl).timers = Timer.chimes f fl.timers := by
  obtain ⟨ts, hts, hstep⟩ := timers_step e hA t
  have hsame : Timer.chimes f ts = Timer.chimes f fl.timers := by
    cases hts with
    | nothing nobody => rfl
    | own lane item =>
      refine Timer.obey_foldl_other (fun hg => ?_) _ _ _
      subst hg
      rw [hv] at lane
      rw [Option.some.inj lane, item] at ht
      cases ht
  cases hstep with
  | same timers length => rw [timers, hsame]
  | wait timers length => rw [timers, Timer.chimes_insert_other rfl, hsame]
  | take queue timers => rw [timers, chimes_new hv, hsame]

/-- **A turn in the lane of a flight does with its timers what was asked for.** -/
theorem chimes_step_own (he : e.Timely) (hA : fl.Assigned) (hin : Timer.InOrder fl.timers)
    (hv : fl.lane? f = some v) {t : Turn} {i : Item}
    (ht : t.item? f v.flight.worker v.post = some i) :
    Timer.chimes f (e.step t fl).timers =
      (v.deskAfter e i).orders.foldl (Chime.obey fl.now) (Timer.chimes f fl.timers) := by
  obtain ⟨ts, hts, hstep⟩ := timers_step e hA t
  have hown : Timer.chimes f ts =
      (v.deskAfter e i).orders.foldl (Chime.obey fl.now) (Timer.chimes f fl.timers) := by
    cases hts with
    | nothing nobody =>
      rw [nobody f v hv] at ht
      cases ht
    | @own g u j lane item =>
      obtain ⟨rfl, rfl⟩ := item?_unique hv lane ht item
      rw [hv] at lane
      obtain rfl := Option.some.inj lane
      exact (Timer.obey_foldl_self hin g _ (v.isTimely_deskAfter he j)).2
  cases hstep with
  | same timers length => rw [timers, hown]
  | wait timers length => rw [timers, Timer.chimes_insert_other rfl, hown]
  | take queue timers => rw [timers, chimes_new hv, hown]

/-- **In the next round, those timers of a flight go off whose time has come.** -/
theorem chimes_nextRound (hin : Timer.InOrder fl.timers) (next : fl.nextRound = some fl')
    (f : Nat) :
    Timer.chimes f fl'.timers =
        (Timer.chimes f fl.timers).filter (fun c => !c.due.hasCome fl'.now) ∧
      (Timer.expired fl'.now fl.timers).1.filterMap (bell? f) =
        ((Timer.chimes f fl.timers).filter fun c => c.due.hasCome fl'.now).map Chime.bell := by
  have hbell : ∀ t, bell? f t = (Timer.chime? f t).map Chime.bell := by
    intro t
    unfold bell? Timer.chime?
    cases t.alarm with
    | flight g b =>
      by_cases hg : g = f
      · simp [hg]
      · simp [hg]
    | receiver w => rfl
    | errand act => rfl
    | stop => rfl
  have hexpired := Timer.expired_eq hin fl'.now
  -- A timer of another flight is no chime, come or not.
  have hkept : Timer.chimes f (fl.timers.filter fun t => !t.due.hasCome fl'.now) =
      (Timer.chimes f fl.timers).filter fun c => !c.due.hasCome fl'.now :=
    Timer.chimes_filter (fun _ => rfl) _
  have hgone : Timer.chimes f (fl.timers.filter fun t => t.due.hasCome fl'.now) =
      (Timer.chimes f fl.timers).filter fun c => c.due.hasCome fl'.now :=
    Timer.chimes_filter (fun _ => rfl) _
  constructor
  · have htimers : fl'.timers = (Timer.expired fl'.now fl.timers).2 :=
      congrArg Floor.timers (nextRound_eq_some next).2.2
    rw [htimers, hexpired, hkept]
  · rw [hexpired, ← hgone, Timer.chimes, List.map_filterMap]
    exact congrArg (fun g => List.filterMap g _) (funext hbell)

/-- On a floor without undefined limits, all timers are in order. -/
structure InTime (fl : Floor σ) : Prop where
  timers : Timer.InOrder fl.timers
  queue : ∀ i ∈ fl.queue, i.isTimely = true

theorem inOrder_step (he : e.Timely) (hA : fl.Assigned) (h : fl.InTime) (t : Turn) :
    Timer.InOrder (e.step t fl).timers := by
  obtain ⟨ts, hts, hstep⟩ := timers_step e hA t
  have hin : Timer.InOrder ts := by
    cases hts with
    | nothing nobody => exact h.timers
    | @own f v i lane item =>
      exact (Timer.obey_foldl_self h.timers f _ (v.isTimely_deskAfter he i)).1
  cases hstep with
  | same timers length =>
    rw [timers]
    exact hin
  | wait timers length =>
    rw [timers]
    exact hin.insert (by simp)
  | take queue timers =>
    rw [timers]
    refine hin.setTimeout (h.queue _ ?_) _ _
    rw [queue]
    exact List.mem_cons_self

/-- **A floor without undefined limits stays so.** -/
theorem InTime.moves (he : e.Timely) (ho : fl.Orderly) (h : fl.InTime) (hm : e.Moves fl fl') :
    fl'.InTime := by
  refine ⟨?_, fun i hi => h.queue i ?_⟩
  · cases hm with
    | @turn t rest ready other =>
      have hA : { fl with ready := rest }.Assigned :=
        assigned_of_same ho.numbered.assigned rfl rfl
      have hin : { fl with ready := rest }.InTime := ⟨h.timers, h.queue⟩
      exact inOrder_step he hA hin t
    | round ready next =>
      rw [(nextRound_eq_some next).2.2, Timer.expired_eq h.timers]
      exact h.timers.filter _
  · cases deals_moves ho hm with
    | keep queue length => rwa [queue] at hi
    | take queue running length lane =>
      rw [queue]
      exact List.mem_cons_of_mem _ hi
    | drain canceled queue length refused =>
      rw [queue]
      exact List.mem_append_right _ hi

end Floor

end Conveyor
