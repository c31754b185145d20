import Conveyor.Proofs.Schedule.Effect

/-!
# The numbers of flights

Flights are numbered in the order in which they are taken, and keep their numbers. Whatever
mentions a number on the floor mentions a flight that is there: turns, timers, sightings, and the
duties of workers. The timeout of a job is due at a time that is known when it is taken.

- `Floor.Keeps`: the flights of one floor are there on another.
- `Floor.Numbered`: all numbers are of flights on the floor.
- `Floor.Numbered.step`, `Floor.Numbered.nextRound`: **turns and rounds keep it so**.
-/

namespace Conveyor

variable {σ : Type}

namespace Floor

/-- The flights of the first floor are there on the second. -/
def Keeps (fl fl' : Floor σ) : Prop :=
  ∀ (f : Nat) (x : Flight), fl.flights[f]? = some x → ∃ y, fl'.flights[f]? = some y ∧ x.Same y

/-- All numbers on the floor are of flights on the floor. -/
structure Numbered (fl : Floor σ) : Prop where
  assigned : fl.Assigned
  turns : ∀ f c, .flight f c ∈ fl.pending → f < fl.flights.length
  timers : ∀ t ∈ fl.timers, ∀ f b, t.alarm = .flight f b →
    ∃ x, fl.flights[f]? = some x ∧ (b = .timeout → x.timeoutDue = some t.due)
  seen : ∀ s ∈ fl.seen, ∀ f, s.flight = some f → f < fl.flights.length

variable {fl fl' : Floor σ}

theorem keeps_of_eq (h : fl'.flights = fl.flights) : fl.Keeps fl' := by
  intro f x hx
  exact ⟨x, h ▸ hx, rfl, rfl, rfl⟩

theorem Keeps.length_le (h : fl.Keeps fl') : fl.flights.length ≤ fl'.flights.length := by
  refine Nat.le_of_not_lt fun hlt => ?_
  obtain ⟨y, hy, -⟩ := h fl'.flights.length _ (List.getElem?_eq_getElem hlt)
  exact Nat.lt_irrefl _ (List.getElem?_eq_some_iff.1 hy).1

/-- What is needed to keep the numbers: old things are still there, new things are of flights
that are there. -/
theorem Numbered.of_keeps (h : fl.Numbered) (hkeeps : fl.Keeps fl') (hassigned : fl'.Assigned)
    (hturns : ∀ f c, .flight f c ∈ fl'.pending → .flight f c ∈ fl.pending ∨
        f < fl'.flights.length)
    (htimers : ∀ t ∈ fl'.timers, t ∈ fl.timers ∨ ∀ f b, t.alarm = .flight f b →
      ∃ x, fl'.flights[f]? = some x ∧ (b = .timeout → x.timeoutDue = some t.due))
    (hseen : ∀ s ∈ fl'.seen, s ∈ fl.seen ∨ ∀ f, s.flight = some f → f < fl'.flights.length) :
    fl'.Numbered := by
  have hle := hkeeps.length_le
  refine ⟨hassigned, fun f c hmem => ?_, fun t ht f b ha => ?_, fun s hs f hf => ?_⟩
  · rcases hturns f c hmem with hmem | hlt
    · exact Nat.lt_of_lt_of_le (h.turns f c hmem) hle
    · exact hlt
  · rcases htimers t ht with ht | hnew
    · obtain ⟨x, hx, hdue⟩ := h.timers t ht f b ha
      obtain ⟨y, hy, hsame⟩ := hkeeps f x hx
      exact ⟨y, hy, fun hb => hsame.timeoutDue.trans (hdue hb)⟩
    · exact hnew f b ha
  · rcases hseen s hs with hs | hnew
    · exact Nat.lt_of_lt_of_le (h.seen s hs f hf) hle
    · exact hnew f hf

/-- Workers get other duties: none on a flight that they did not take. -/
theorem assigned_modify (h : fl.Assigned) (hkeeps : fl.Keeps fl') {w : Nat} {k : Worker σ →
    Worker σ}
    (hworkers : fl'.workers = fl.workers.modify w k)
    (hk : ∀ worker, fl.workers[w]? = some worker → ∀ f, (k worker).duty.postOn f ≠ .away →
      worker.duty.postOn f ≠ .away ∨ ∃ x, fl'.flights[f]? = some x ∧ x.worker = w) :
    fl'.Assigned := by
  intro f u hu
  have hold : (standingAmong fl.workers f u).1 ≠ .away →
      ∃ x, fl'.flights[f]? = some x ∧ x.worker = u := by
    intro hu
    obtain ⟨x, hx, hxw⟩ := h f u hu
    obtain ⟨y, hy, hsame⟩ := hkeeps f x hx
    exact ⟨y, hy, hsame.2.1.trans hxw⟩
  rw [hworkers] at hu
  -- Only the one worker stands elsewhere than before.
  by_cases huw : w = u
  · subst huw
    obtain ⟨worker', hw', hd'⟩ := standingAmong_ne_away.1 hu
    rw [List.getElem?_modify_eq, Option.map_eq_map] at hw'
    obtain ⟨worker, hw, rfl⟩ := Option.map_eq_some_iff.1 hw'
    rcases hk worker hw f hd' with hd | hx
    · exact hold (standingAmong_ne_away.2 ⟨worker, hw, hd⟩)
    · exact hx
  · rw [standingAmong_modify_other huw] at hu
    exact hold hu

/-! ## Putting a flight back -/

variable {f : Nat} {v : Lane} {d : Desk}

/-- A flight that is put back is the same as before, and so are the others. -/
theorem PutBack.keeps (h : PutBack f d fl fl') (hv : fl.lane? f = some v) (hd : v.desk.Fits d) :
    fl.Keeps fl' := by
  intro g x hx
  obtain ⟨k, hk, hflights⟩ := h.flights
  obtain ⟨y, hy, rfl⟩ := lane?_eq_some.1 hv
  rw [hflights, List.getElem?_map]
  by_cases hg : f = g
  · subst hg
    have hlt : f < fl.flights.length := (List.getElem?_eq_some_iff.1 hy).1
    rw [List.getElem?_set_self hlt, Option.map_some]
    rw [hy] at hx
    cases hx
    obtain ⟨hjob, hworker, htaken⟩ := hk d.flight
    exact ⟨_, rfl, hjob.trans hd.job, hworker.trans hd.worker, htaken.trans hd.takenAt⟩
  · rw [List.getElem?_set_ne hg, hx, Option.map_some]
    exact ⟨_, rfl, hk x⟩

/-- A worker that does something about the flight after it was put back took it. -/
theorem PutBack.assigned (h : PutBack f d fl fl') (hv : fl.lane? f = some v) (hd : v.desk.Fits d)
    (hA : fl.Assigned) : fl'.Assigned := by
  have hkeeps := h.keeps hv hd
  obtain ⟨x, hx, rfl⟩ := lane?_eq_some.1 hv
  obtain ⟨y, hy, hsame⟩ := hkeeps f x hx
  refine assigned_modify hA hkeeps h.workers fun worker hw g hg => ?_
  -- A duty with a flight is that of the flight that is put back.
  have hmine : ∀ duty : Duty σ, (Worker.stand f d.post d.call worker).duty = duty →
      (∀ k, duty.postOn k ≠ .away → k = f) →
      ∃ z, fl'.flights[g]? = some z ∧ z.worker = d.flight.worker := by
    intro duty hduty honly
    rw [hduty] at hg
    rw [honly g hg]
    exact ⟨y, hy, hsame.2.1.trans hd.worker.symm⟩
  cases hp : d.post with
  | away =>
    rw [hp] at hg
    exact .inl hg
  | watching =>
    refine .inr (hmine (.watching f) (by rw [hp]; rfl) fun k hk => ?_)
    by_cases hkf : f = k
    · exact hkf.symm
    · simp [Duty.postOn, hkf] at hk
  | preempting cause =>
    refine .inr (hmine (.preempting f cause) (by rw [hp]; rfl) fun k hk => ?_)
    by_cases hkf : f = k
    · exact hkf.symm
    · simp [Duty.postOn, hkf] at hk

theorem PutBack.numbered (h : PutBack f d fl fl') (hv : fl.lane? f = some v) (hd : v.desk.Fits d)
    (hn : fl.Numbered) : fl'.Numbered := by
  have hkeeps := h.keeps hv hd
  have hassigned := h.assigned hv hd hn.assigned
  obtain ⟨x, hx, rfl⟩ := lane?_eq_some.1 hv
  have hlt : f < fl.flights.length := (List.getElem?_eq_some_iff.1 hx).1
  obtain ⟨y, hy, -⟩ := hkeeps f x hx
  refine hn.of_keeps hkeeps hassigned ?_ ?_ ?_
  · intro g c hmem
    obtain ⟨ts, hlater, hts, -⟩ := h.later
    rw [pending, h.ready, hlater, ← List.append_assoc] at hmem
    rcases List.mem_append.1 hmem with hmem | hmem
    · exact .inl hmem
    · rw [h.length]
      rcases hts _ hmem with ⟨k, c', he, hk⟩ | he
      · cases he
        rcases hk with rfl | hk
        · exact .inr hlt
        · exact .inr hk
      · cases he
  · -- No desk sets a timeout: it was set when the flight was taken.
    intro t ht
    rcases h.timers t ht with ht | ⟨span, b, hb, ha⟩
    · exact .inl ht
    · refine .inr fun g b' hb' => ?_
      rw [ha] at hb'
      cases hb'
      refine ⟨y, hy, fun htimeout => ?_⟩
      rw [htimeout] at hb
      exact absurd hb (hd.timers span)
  · intro s hs
    rw [h.seen] at hs
    rcases List.mem_append.1 hs with hs | hs
    · refine .inr fun g hg => ?_
      obtain ⟨n, -, rfl⟩ := List.mem_map.1 (List.mem_reverse.1 hs)
      cases hg
      rw [h.length]
      exact hlt
    · exact .inl hs

/-! ## Other operations -/

/-- The numbers are kept as long as the flights stay and nothing new mentions them. -/
theorem Numbered.of_same (h : fl.Numbered) (hflights : fl'.flights = fl.flights)
    (hassigned : fl'.Assigned)
    (hturns : ∀ f c, .flight f c ∈ fl'.pending → .flight f c ∈ fl.pending)
    (htimers : ∀ t ∈ fl'.timers, t ∈ fl.timers)
    (hseen : ∀ s ∈ fl'.seen, s ∈ fl.seen ∨ s.flight = none) : fl'.Numbered := by
  refine h.of_keeps (keeps_of_eq hflights) hassigned (fun f c hmem => .inl (hturns f c hmem))
    (fun t ht => .inl (htimers t ht)) fun s hs => ?_
  rcases hseen s hs with hs | hs
  · exact .inl hs
  · refine .inr fun f hf => ?_
    rw [hs] at hf
    cases hf

theorem assigned_of_same (h : fl.Assigned) (hflights : fl'.flights = fl.flights)
    (hworkers : fl'.workers = fl.workers) : fl'.Assigned := by
  intro f w hw
  rw [hworkers] at hw
  rw [hflights]
  exact h f w hw

/-- A turn is taken. -/
theorem Numbered.pop (h : fl.Numbered) {t : Turn} {rest : List Turn} (hr : fl.ready =
    t :: rest) :
    { fl with ready := rest }.Numbered := by
  refine h.of_same rfl (assigned_of_same h.assigned rfl rfl) (fun f c hmem => ?_) (fun _ => id)
    fun s hs => .inl hs
  rw [pending, hr, List.cons_append]
  exact List.mem_cons_of_mem t hmem

/-- A turn is called that concerns no flight. -/
theorem Numbered.push (h : fl.Numbered) {t : Turn} (ht : ∀ f c, t ≠ .flight f c) :
    (fl.push t).Numbered := by
  refine h.of_same rfl (assigned_of_same h.assigned rfl rfl) (fun f c hmem => ?_) (fun _ => id)
    fun s hs => .inl hs
  rw [pending, Floor.push, ← List.append_assoc] at hmem
  rcases List.mem_append.1 hmem with hmem | hmem
  · exact hmem
  · exact absurd (List.mem_singleton.1 hmem).symm (ht f c)

/-- A worker gets a duty that is on no flight that it did not have before. -/
theorem Numbered.modifyWorker (h : fl.Numbered) {w : Nat} {k : Worker σ → Worker σ}
    (hk : ∀ worker f, (k worker).duty.postOn f ≠ .away → worker.duty.postOn f ≠ .away) :
    (fl.modifyWorker w k).Numbered :=
  h.of_same rfl
    (assigned_modify h.assigned (keeps_of_eq rfl) rfl fun worker _ f hf => .inl (hk worker f hf))
    (fun _ _ => id) (fun _ => id) fun _ => .inl

theorem Numbered.endWorker (h : fl.Numbered) (w : Nat) (stopped : Bool) :
    (Engine.endWorker w stopped fl).Numbered := by
  refine Numbered.push (h.modifyWorker fun worker f hf => ?_) (by simp)
  simp [Duty.postOn] at hf

theorem Numbered.see (h : fl.Numbered) (ns : List Note) : (fl.see none ns).Numbered := by
  refine h.of_same rfl (assigned_of_same h.assigned rfl rfl) (fun _ _ => id) (fun _ => id)
    fun s hs => ?_
  rcases List.mem_append.1 hs with hs | hs
  · obtain ⟨n, -, rfl⟩ := List.mem_map.1 (List.mem_reverse.1 hs)
    exact .inr rfl
  · exact .inl hs

theorem Numbered.moveTo (h : fl.Numbered) (s : Surroundings) : (fl.moveTo s).Numbered := by
  obtain ⟨g, ts, hmove, hsame, -, hts⟩ := moveTo_eq s fl
  have hkeeps : fl.Keeps (fl.moveTo s) := by
    intro f x hx
    rw [hmove, List.getElem?_map, hx, Option.map_some]
    exact ⟨_, rfl, hsame x⟩
  refine h.of_keeps hkeeps ?_ ?_ ?_ ?_
  · intro f w hw
    rw [workers_moveTo] at hw
    obtain ⟨x, hx, hxw⟩ := h.assigned f w hw
    obtain ⟨y, hy, hy'⟩ := hkeeps f x hx
    exact ⟨y, hy, hy'.2.1.trans hxw⟩
  · intro f c hmem
    rw [hmove, pending, ← List.append_assoc] at hmem
    rcases List.mem_append.1 hmem with hmem | hmem
    · exact .inl hmem
    · obtain ⟨k, he, hk⟩ := hts _ hmem
      cases he
      rw [hmove, List.length_map]
      exact .inr hk
  · rw [hmove]
    exact fun t ht => .inl ht
  · rw [hmove]
    exact fun s hs => .inl hs

/-- A job is taken, and gets the next number. -/
theorem Numbered.launch (h : fl.Numbered) (w : Nat) (i : JobInstance) :
    (Engine.launch w i fl).Numbered := by
  have hlaunch := launch_eq w i fl
  have hflights : (Engine.launch w i fl).flights = fl.flights ++ [Flight.launch i w fl.now] := by
    rw [hlaunch]
  have hnew : (Engine.launch w i fl).flights[fl.flights.length]? =
      some (Flight.launch i w fl.now) := by
    rw [hflights, List.getElem?_concat_length]
  have hlt : fl.flights.length < (Engine.launch w i fl).flights.length := by
    rw [hflights, List.length_append]
    exact Nat.lt_succ_self _
  have hkeeps : fl.Keeps (Engine.launch w i fl) := by
    intro f x hx
    refine ⟨x, ?_, rfl, rfl, rfl⟩
    rw [hflights, List.getElem?_append_left (List.getElem?_eq_some_iff.1 hx).1]
    exact hx
  -- What the new job adds: a duty, turns, a timer and a note, all of its own number.
  refine h.of_keeps hkeeps ?_ ?_ ?_ ?_
  · refine assigned_modify (k := fun x => { x with duty := .watching fl.flights.length })
      h.assigned hkeeps (by rw [hlaunch]) fun worker _ f hf => .inr ?_
    by_cases hfn : fl.flights.length = f
    · subst hfn
      exact ⟨_, hnew, rfl⟩
    · simp [Duty.postOn, hfn] at hf
  · intro f c hmem
    rw [hlaunch, pending, ← List.append_assoc] at hmem
    rcases List.mem_append.1 hmem with hmem | hmem
    · exact .inl hmem
    · refine .inr ?_
      have hf : f = fl.flights.length := by
        simp only [List.mem_cons, Turn.flight.injEq, List.not_mem_nil, or_false] at hmem
        rcases hmem with hmem | hmem
        · exact hmem.1
        · exact hmem.1
      rw [hf]
      exact hlt
  · intro t ht
    rw [hlaunch] at ht
    dsimp only at ht
    split at ht
    · rename_i due hdue
      rcases Timer.mem_insert.1 ht with rfl | ht
      · refine .inr fun f b hb => ?_
        cases hb
        exact ⟨_, hnew, fun _ => hdue⟩
      · exact .inl ht
    · exact .inl ht
  · intro s hs
    rw [hlaunch] at hs
    rcases List.mem_cons.1 hs with rfl | hs
    · refine .inr fun f hf => ?_
      cases hf
      exact hlt
    · exact .inl hs

theorem Numbered.cleared (h : fl.Numbered) (rest : List JobInstance) (m : σ) (ns : List Note) :
    (fl.cleared rest m ns).Numbered :=
  (h.see ns).of_same rfl (assigned_of_same h.assigned rfl rfl) (fun _ _ => id) (fun _ => id)
    fun _ => .inl

/-- A worker waits for the receiver, whose timer concerns no flight. -/
theorem Numbered.attend (h : fl.Numbered) (w : Nat) (jobId : Text) (span : Nat)
    (next : Bool → Reception σ) : (Engine.attend w jobId span next fl).Numbered := by
  obtain ⟨ws, ts, timers, hattend, ⟨k, rfl, hk⟩, hts, htimers⟩ :=
    Engine.attend_eq w jobId span next fl
  rw [hattend]
  refine h.of_keeps (keeps_of_eq rfl) ?_ ?_ ?_ fun _ => .inl
  · refine assigned_modify h.assigned (keeps_of_eq rfl) rfl fun worker _ f hf => ?_
    rw [hk] at hf
    exact absurd rfl hf
  · intro f c hmem
    rw [pending, ← List.append_assoc] at hmem
    rcases List.mem_append.1 hmem with hmem | hmem
    · exact .inl hmem
    · cases hts _ hmem
  · intro t ht
    rcases htimers with rfl | rfl
    · exact .inl ht
    · rcases Timer.mem_insert.1 ht with rfl | ht
      · exact .inr fun f b hb => by cases hb
      · exact .inl ht

/-- A worker that looks for the next job keeps the numbers. -/
theorem Numbered.seeks (h : fl.Numbered) {e : Engine} {w : Nat} {told : Option Text}
    {quick : Bool}
    (hs : e.Seeks w told fl quick fl') : fl'.Numbered := by
  cases hs with
  | leave passes => exact (h.cleared ..).endWorker w false
  | take passes running => exact (h.cleared ..).launch w _
  | stop passes => exact (h.cleared ..).endWorker w true
  | wait passes => exact (h.cleared ..).attend w _ _ _

theorem Numbered.carryOn (h : fl.Numbered) (e : Engine) (w : Nat) (d : Desk) (sq : Sequel) :
    (e.carryOn w d fl sq).Numbered := by
  cases sq with
  | stay => exact h
  | free status =>
    obtain ⟨quick, hseeks, -⟩ := e.seeks_tell w (e.resultOf status d) fl
    exact h.seeks hseeks
  | stop => exact h.endWorker w true

/-- A turn of a worker on its job keeps the numbers. -/
theorem Numbered.workOn (h : fl.Numbered) (e : Engine) {w : Nat} (hv : fl.lane? f = some v)
    {turn : Desk → Desk × Sequel} (ht : v.desk.Fits (turn v.desk).1) :
    (e.workOn w f turn fl).Numbered := by
  rw [Engine.workOn, desk?_of_lane hv]
  exact ((putBack f _ fl).numbered hv ht h).carryOn e w _ _

theorem Numbered.workerTurn (h : fl.Numbered) (e : Engine) (w : Nat) :
    (e.workerTurn w fl).Numbered := by
  rw [Engine.workerTurn]
  cases hw : fl.workers[w]? with
  | none => exact h
  | some worker =>
    have hidle := h.modifyWorker (w := w) (k := fun x => { x with call := .idle })
      fun _ _ hf => hf
    have hget : (fl.modifyWorker w fun x => { x with call := .idle }).workers[w]? =
        some { worker with call := .idle } := by
      rw [Floor.modifyWorker, List.getElem?_modify_eq, hw]
      rfl
    dsimp only
    cases hduty : worker.duty with
    | fresh =>
      dsimp only
      split
      · exact hidle.endWorker w true
      · obtain ⟨quick, hseeks, -⟩ := e.seeks_queue w
          (fl.modifyWorker w fun x => { x with call := .idle })
        exact hidle.seeks hseeks
    | telling jobId due next =>
      obtain ⟨quick, hseeks, -⟩ := (e.hears_proceed w jobId
        (fl.modifyWorker w fun x => { x with call := .idle })
        (next (worker.call = .cut))).seeks_resume
      exact hidle.seeks hseeks
    | watching g =>
      obtain ⟨u, hu, -, hpost, -⟩ := lane?_of_duty (f := g) hidle.assigned hget
        (by simp [hduty, Duty.postOn])
      have hp : u.desk.post ≠ .away := by
        show u.post ≠ .away
        simp [hpost, hduty, Duty.postOn]
      exact hidle.workOn e hu ((e.tends_afterWatching hp rfl rfl _).fits hp)
    | preempting g cause =>
      obtain ⟨u, hu, -, hpost, -⟩ := lane?_of_duty (f := g) hidle.assigned hget
        (by simp [hduty, Duty.postOn])
      have hp : u.desk.post ≠ .away := by
        show u.post ≠ .away
        simp [hpost, hduty, Duty.postOn]
      exact hidle.workOn e hu ((e.tends_afterPreempting hp rfl rfl cause _).fits hp)
    | done stopped => exact hidle

/-! ## Turns and rounds -/

theorem Numbered.callScheduler (h : fl.Numbered) : fl.callScheduler.Numbered := by
  unfold Floor.callScheduler
  split
  · refine Numbered.push ?_ (by simp)
    exact h.of_same rfl (assigned_of_same h.assigned rfl rfl) (fun _ _ => id) (fun _ => id)
      fun _ => .inl
  · exact h

theorem Numbered.cutWorker (h : fl.Numbered) (w : Nat) : (fl.cutWorker w).Numbered := by
  unfold Floor.cutWorker
  split
  · dsimp only
    split
    · exact h
    · have hcut := h.modifyWorker (w := w) (k := fun x => { x with call := .cut }) fun _ _ hf =>
        hf
      split
      · exact hcut.push (by simp)
      · exact hcut
  · exact h

theorem Numbered.callTeller (h : fl.Numbered) (w : Nat) : (fl.callTeller w).Numbered := by
  rcases fl.callTeller_eq w with hsame | ⟨worker, -, -, -, hcalls⟩
  · rwa [hsame]
  · rw [hcalls]
    have hcalled := h.modifyWorker (w := w) (k := fun x => { x with call := .called })
      fun _ _ hf => hf
    exact hcalled.push (by simp)

/-- **Turns keep the numbers.** -/
theorem Numbered.step (h : fl.Numbered) (e : Engine) (t : Turn) : (e.step t fl).Numbered := by
  cases t with
  | flight g c =>
    rw [Engine.step, atDesk]
    cases hv : fl.lane? g with
    | none =>
      rw [desk?_of_no_lane hv]
      exact h
    | some v =>
      rw [desk?_of_lane hv]
      exact (putBack g _ fl).numbered hv (e.fits_cueTurn rfl rfl (call_of_away hv) c) h
  | worker w => exact h.workerTurn e w
  | receiver w => exact h.callTeller w
  | workerDone w =>
    have hcount : { fl with doneCount := fl.doneCount + 1 }.Numbered :=
      h.of_same rfl (assigned_of_same h.assigned rfl rfl) (fun _ _ => id) (fun _ => id) fun _ =>
        .inl
    rw [Engine.step, workerDoneTurn]
    dsimp only
    split
    · exact hcount.callScheduler
    · split
      · exact hcount.callScheduler
      · exact hcount
  | scheduler => exact h
  | errand act => exact (h.see _).moveTo _
  | stop =>
    rw [Engine.step, stopTurn]
    split
    · rename_i hrun
      clear hrun
      -- On the workers that are still to be cut.
      generalize List.range fl.workers.length = ws
      induction ws generalizing fl with
      | nil => exact h
      | cons w ws ih => exact ih (h.cutWorker w)
    · exact h.of_same rfl (assigned_of_same h.assigned rfl rfl) (fun _ _ => id) (fun _ => id)
        fun _ => .inl

/-- **Rounds keep the numbers.** -/
theorem Numbered.nextRound (h : fl.Numbered) (hnext : fl.nextRound = some fl') :
    fl'.Numbered := by
  obtain ⟨-, -, hfl'⟩ := nextRound_eq_some hnext
  generalize fl'.now = time at hfl'
  subst hfl'
  refine h.of_keeps (keeps_of_eq rfl) (assigned_of_same h.assigned rfl rfl) ?_ ?_
    (fun s hs => .inl hs)
  · intro f c hmem
    rw [pending, List.append_nil] at hmem
    rcases List.mem_append.1 hmem with hmem | hmem
    · exact .inl (List.mem_append_right _ hmem)
    · obtain ⟨t, ht, htc⟩ := List.mem_map.1 hmem
      cases ha : t.alarm with
      | flight g b =>
        obtain ⟨x, hx, -⟩ := h.timers t (Timer.mem_of_mem_expired.1 ht) g b ha
        rw [ha] at htc
        cases htc
        exact .inr (List.getElem?_eq_some_iff.1 hx).1
      | receiver w =>
        rw [ha] at htc
        cases htc
      | errand act =>
        rw [ha] at htc
        cases htc
      | stop =>
        rw [ha] at htc
        cases htc
  · exact fun t ht => .inl (Timer.mem_of_mem_expired.2 ht)

end Floor

end Conveyor
