import Conveyor.Proofs.Schedule.Ownership
import Conveyor.Proofs.Schedule.Receipts
import Conveyor.Proofs.Schedule.States

/-!
# From state to state

Body and worker of a job take turns on it without looking at its state. They do not get into each
other's way, because the body has a turn before the worker as long as it can still move the job:
its first turn, and the one in which its acquisition is interrupted. From then on it works, or is
released, or is abandoned, and all of that leaves the state alone. It matters that an interrupted
acquisition is over in that turn.

- `Lane.Parted.passes`: **a job that its worker has left is moved no more**, whatever its body
  does.
- `Lane.Abides`: what concerns neither body nor worker.
- `Lane.Staged`, `Lane.Staged.passes`: every move keeps body, worker and state in agreement.
- `Floor.Open.staged_leads`: **so it is at every moment of a schedule**.
- `Engine.Opens.parted`: on a floor on which a schedule can be started, no job of an earlier one
  can be moved.
- `Floor.Open.dismissed_leads`: each job that is turned away has one transition.
- `JobResult.Path`, `ScheduleReport.Paths`: the ways of a job from the queue to its result, and
  what a report says of them.
- `Engine.one_path`: **each job goes one of these ways, and goes no further**.
-/

namespace Conveyor

variable {σ : Type}

/-! ## Lanes -/

namespace Lane

variable {e : Engine} {v v' : Lane} {d : Desk}

@[simp] theorem state_heard (c c' : Bool) (x : Flight) : (heard c c' x).state = x.state := by
  unfold heard
  split <;> rfl

/-- Its worker has left the job, and its body does not wait for a unit. -/
structure Parted (v : Lane) : Prop where
  post : v.post = .away
  seeks : v.flight.body.seeks = false

/-- **A job that its worker has left is moved no more**, whatever its body does. -/
theorem Parted.passes (h : v.Parted) (hp : v.Passes e v') :
    v'.Parted ∧ v'.flight.state = v.flight.state ∧ transitionsAmong v'.notes =
    transitionsAmong v.notes := by
  have hput : ∀ (u : Lane) (d₀ d : Desk), u.flight = v.flight → u.notes = v.notes →
      d.post = .away →
      d₀.notes = [] → d₀.flight.state = v.flight.state → Desk.Dwells d₀ d →
      d.flight.body.seeks = false → (u.put d).Parted ∧ (u.put d).flight.state = v.flight.state ∧
        transitionsAmong (u.put d).notes = transitionsAmong v.notes := by
    intro u d₀ d hflight hnotes hpost hn hstate hd hseeks
    refine ⟨⟨?_, ?_⟩, ?_, ?_⟩
    · rw [put_eq]
      exact hpost
    · rw [put_eq]
      simpa using hseeks
    · rw [put_eq]
      simpa using hd.state.trans hstate
    · rw [notes_put, transitionsAmong_append, hd.transitions, hn, hnotes]
      exact List.append_nil _
  cases hp with
  | @own i rest ready =>
    cases i with
    | cue c =>
      have hpost : (e.cueTurn c v.desk).post = .away :=
        (e.stays_cueTurn (d := v.desk) rfl rfl c).1.trans h.post
      by_cases hc : c = .body
      · subst hc
        have hprogress := e.progresses_bodyTurn (d := v.desk) h.seeks
        exact hput { v with ready := rest } _ _ rfl rfl hpost rfl rfl hprogress.toDwells
          hprogress.seeks
      · have hbody := (Desk.spares_cueTurn e (d := v.desk) rfl hc).body
        exact hput { v with ready := rest } _ _ rfl rfl hpost rfl rfl
            (Desk.dwells_cueTurn e v.desk hc)
          (hbody ▸ h.seeks)
    | worker =>
      show ({ v with ready := rest }.workerTurn e).Parted ∧ _
      rw [turn, workerTurn_away e (v := { v with ready := rest }) h.post]
      exact ⟨⟨h.post, h.seeks⟩, rfl, rfl⟩
  | other now canceled =>
    rw [moveTo_eq]
    exact ⟨⟨h.post, by simpa using h.seeks⟩, by simp, rfl⟩
  | cut =>
    rw [cut_of_away h.post]
    exact ⟨h, rfl, rfl⟩
  | round ready now later timeout => exact ⟨⟨h.post, h.seeks⟩, rfl, rfl⟩

/-- Body, worker and state of a job agree, and the state was reached step by step. As long as the
body can still move the job, or is to be interrupted in its acquisition, it has its turn before
the worker. -/
structure Staged (v : Lane) : Prop where
  summoned : v.Summoned
  walk : Walk v.flight.job.id v.flight.state (transitionsAmong v.notes)
  body : v.flight.body.Suits v.post v.flight.state
  due : ∀ call, v.flight.body.dueCall? v.post = some call →
    v.flight.bodyCall = call ∧ Item.Precedes (.cue .body) .worker v.items
  ended : ∀ r, .completed r ∈ v.notes → v.flight.state = .ended r.status

theorem staged_launched (i : JobInstance) (w : Nat) (s : Surroundings) :
    (launched i w s).Staged := by
  refine ⟨summoned_launched i w s, .start, ⟨rfl, rfl⟩, fun call hcall => ?_, fun r hr => ?_⟩
  · cases hcall
    exact ⟨rfl, .of_mem List.mem_cons_self (by simp [launched, items])⟩
  · have hlog := List.mem_singleton.1 hr
    cases hlog

theorem Staged.parted (h : v.Staged) (hp : v.post = .away) : v.Parted :=
  ⟨hp, Body.Suits.seeks_of_away (hp ▸ h.body)⟩

/-- The next turn is taken up. -/
theorem Staged.pop (h : v.Staged) {i : Item} {rest : List Item} (hr : v.ready = i :: rest)
    (hi : i ≠ .cue .body) : ({ v with ready := rest } : Lane).Staged := by
  refine ⟨(h.summoned.pop hr).2 hi, h.walk, h.body, fun call hcall => ?_, h.ended⟩
  obtain ⟨hcalled, hfirst⟩ := h.due call hcall
  have hitems : v.items = i :: ({ v with ready := rest } : Lane).items := by simp [items, hr]
  rw [hitems] at hfirst
  exact ⟨hcalled, hfirst.tail hi⟩

/-- A desk that is put back after a turn of the body. -/
theorem staged_put (hs : (v.put d).Summoned) (hpost : d.post = v.post)
    (hd : d.Staged v.post v.notes)
    (hno : ∀ r, .completed r ∉ v.notes ++ d.notes) : (v.put d).Staged := by
  refine ⟨hs, ?_, ?_, fun call hcall => ?_, fun r hr => ?_⟩
  · rw [notes_put, put_eq]
    simpa only [job_heard, state_heard] using hd.walk
  · rw [put_eq]
    simpa only [body_heard, state_heard, hpost] using hd.body
  · rw [put_eq] at hcall
    simp only [body_heard, hpost, hd.due] at hcall
    cases hcall
  · rw [notes_put] at hr
    exact absurd hr (hno r)

/-- Neither body nor worker did anything about the job, and nobody was called off. -/
structure Abides (v v' : Lane) : Prop where
  job : v'.flight.job = v.flight.job
  state : v'.flight.state = v.flight.state
  body : v'.flight.body = v.flight.body
  bodyCall : v.flight.bodyCall ≠ .idle → v'.flight.bodyCall = v.flight.bodyCall
  post : v'.post = v.post
  transitions : transitionsAmong v'.notes = transitionsAmong v.notes
  results : ∀ r, .completed r ∈ v'.notes → .completed r ∈ v.notes
  items : ∃ more, v'.items = v.items ++ more

theorem Staged.abides (h : v.Staged) (hs : v'.Summoned) (ha : v.Abides v') : v'.Staged := by
  refine ⟨hs, ?_, ?_, fun call hcall => ?_, fun r hr => ?_⟩
  · rw [ha.job, ha.state, ha.transitions]
    exact h.walk
  · rw [ha.body, ha.post, ha.state]
    exact h.body
  · rw [ha.body, ha.post] at hcall
    obtain ⟨hcalled, hfirst⟩ := h.due call hcall
    have hne : v.flight.bodyCall ≠ .idle := hcalled ▸ Body.dueCall_ne_idle hcall
    obtain ⟨more, hitems⟩ := ha.items
    refine ⟨(ha.bodyCall hne).trans hcalled, ?_⟩
    rw [hitems]
    exact hfirst.append more
  · rw [ha.state]
    exact h.ended r (ha.results r hr)

/-- A desk that is put back after a turn of neither body nor worker. -/
theorem abides_put (hd : v.desk.Dwells d) (hbody : d.flight.body = v.flight.body)
    (hpost : d.post = v.post)
    (hno : ∀ r, .completed r ∉ d.notes) : v.Abides (v.put d) := by
  refine ⟨?_, ?_, ?_, fun hne => ?_, ?_, ?_, fun r hr => ?_, _, items_put ..⟩
  · rw [put_eq]
    exact (job_heard ..).trans hd.job
  · rw [put_eq]
    exact (state_heard ..).trans hd.state
  · rw [put_eq]
    exact (body_heard ..).trans hbody
  · rw [put_eq]
    exact (bodyCall_heard ..).trans (hd.bodyCall hne)
  · rw [put_eq]
    exact hpost
  · rw [notes_put, transitionsAmong_append, hd.transitions]
    exact List.append_nil _
  · rw [notes_put] at hr
    exact (List.mem_append.1 hr).resolve_right (hno r)

theorem abides_moveTo (v : Lane) (s : Surroundings) : v.Abides (v.moveTo s) := by
  rw [moveTo_eq]
  exact ⟨job_heard .., state_heard .., body_heard .., fun _ => bodyCall_heard .., rfl, rfl,
      fun _ => id,
    hearing v.around.canceled s.canceled v.flight, by simp [items]⟩

theorem abides_cut (hp : v.post ≠ .away) : v.Abides v.cut := by
  by_cases hcall : v.call = .idle
  · rw [cut_of_idle hp hcall]
    exact ⟨rfl, rfl, rfl, fun _ => rfl, rfl, rfl, fun _ => id, [.worker], by simp [items, push]⟩
  · rw [cut_of_called hp hcall]
    exact ⟨rfl, rfl, rfl, fun _ => rfl, rfl, rfl, fun _ => id, [], (List.append_nil _).symm⟩

theorem abides_tick (hr : v.ready = []) (time : Nat) (bells : List Bell) :
    v.Abides (v.tick time bells) :=
  ⟨rfl, rfl, rfl, fun _ => rfl, rfl, rfl, fun _ => id, bells.map fun b => .cue (.bell b),
    by simp [items, tick, hr]⟩

/-- The state that a worker leaves a job in. -/
theorem state_tend (e : Engine) (hp : v.post ≠ .away) :
    ((∀ status, (v.tend e).2 ≠ .free status) → (v.tend e).1.flight.state = v.flight.state) ∧
      (∀ status, (v.tend e).2 = .free status → (v.tend e).1.flight.state = .ended status) ∧
      ((v.tend e).2 = .stay → v.flight.body.isOver = false → (v.tend e).1.flight.bodyCall =
          .cut) := by
  unfold tend
  cases hpost : v.post with
  | away => exact absurd hpost hp
  | watching =>
    dsimp only
    rcases e.state_afterWatching (decide (v.call = .cut)) v.idled.desk with
      ⟨hsq, hstate, hcut⟩ | ⟨status, hbody, hsq, hstate⟩
    · rw [hsq]
      exact ⟨fun _ => hstate, fun _ h => (by cases h), fun _ => hcut⟩
    · rw [hsq]
      refine ⟨fun h => absurd rfl (h status), fun status' h => ?_, fun h => by cases h⟩
      cases h
      exact hstate
  | preempting cause =>
    dsimp only
    rcases e.state_afterPreempting cause (decide (v.call = .cut)) v.idled.desk with
      ⟨hsq, hstate⟩ | ⟨status, hstatus, hsq, hstate⟩
    · rw [hsq]
      exact ⟨fun _ => hstate, fun _ h => (by cases h), fun h => by cases h⟩
    · rw [hsq]
      refine ⟨fun h => absurd rfl (h status), fun status' h => ?_, fun h => by cases h⟩
      cases h
      exact hstate

theorem call_workerTurn (e : Engine) (hp : v.post ≠ .away) : (v.workerTurn e).call = .idle := by
  rw [workerTurn_eq e hp, after]
  split
  · exact (congrArg Lane.call (put_eq _ _)).trans (v.tends_tend e hp).call
  · rfl

theorem job_workerTurn (e : Engine) (hp : v.post ≠ .away) :
    (v.workerTurn e).flight.job = v.flight.job := by
  rw [(flight_workerTurn e hp).1, job_put]
  exact (v.tends_tend e hp).job

theorem state_workerTurn (e : Engine) (hp : v.post ≠ .away) :
    (v.workerTurn e).flight.state = (v.tend e).1.flight.state := by
  rw [(flight_workerTurn e hp).1, put_eq, state_heard]

/-- A result that is new was given in this turn. -/
theorem completed_mem_tend (hp : v.post ≠ .away) (hno : ∀ r, .completed r ∉ v.notes)
    {r : JobResult}
    (hr : .completed r ∈ (v.workerTurn e).notes) : .completed r ∈ (v.tend e).1.notes := by
  rw [notes_workerTurn e hp] at hr
  exact (List.mem_append.1 hr).resolve_left (hno r)

/-- A worker interrupts the body, which has its turn before the worker has another. -/
theorem Staged.preempts (h : v.Staged) (hp : v.post ≠ .away)
    (hdue : v.flight.body.dueCall? v.post = none) (hno : ∀ r, .completed r ∉ v.notes)
    (hv : (v.workerTurn e).Vigilant) (hsq : (v.tend e).2 = .stay) {cause : Cause}
    (post : v.post = .watching) (desk : (v.tend e).1.Preempted v.flight cause) :
    (v.workerTurn e).Staged := by
  have hs : (v.workerTurn e).Summoned := h.summoned.workerTurn
  have hnotes := notes_workerTurn e hp
  have hbody := body_workerTurn e hp
  obtain ⟨hkept, -, hcut⟩ := state_tend e hp
  have hpost : (v.workerTurn e).post = .preempting cause :=
    ((post_workerTurn e hp).1 hsq).trans desk.post
  have hstate : (v.workerTurn e).flight.state = v.flight.state :=
    (state_workerTurn e hp).trans (hkept (by simp [hsq]))
  rw [post] at hdue
  refine ⟨hs, ?_, ?_, fun call hcall => ?_, fun r hr => ?_⟩
  · rw [job_workerTurn e hp, hstate, hnotes, transitionsAmong_append,
        transitions_logs desk.logged.1,
      List.append_nil]
    exact h.walk
  · rw [hbody, hstate, hpost]
    exact Body.Suits.preempting (post ▸ h.body) hdue cause
  · rw [hbody, hpost] at hcall
    obtain ⟨rfl, hongoing⟩ := Body.dueCall_preempting hdue hcall
    have hinterrupted : (v.workerTurn e).flight.bodyCall = .cut := by
      rw [(flight_workerTurn e hp).1, put_eq, bodyCall_heard]
      exact hcut hsq hongoing
    refine ⟨hinterrupted, .of_mem (List.count_pos_iff.1 ?_) (List.count_eq_zero.1 ?_)⟩
    · rw [hs, hinterrupted]
      decide
    -- The worker has just had its turn.
    · rw [hv.called, if_pos (call_workerTurn e hp)]
  · exact absurd (completed_mem_tend hp hno hr) (not_mem_logs desk.logged.1 r)

/-- A worker that leaves the job leaves a body that does not wait for a unit. -/
theorem Staged.leaves (h : v.Staged) (hp : v.post ≠ .away) (hno : ∀ r, .completed r ∉ v.notes)
    (hseeks : v.flight.body.seeks = false) (haway : (v.workerTurn e).post = .away)
    (hwalk : Walk v.flight.job.id (v.workerTurn e).flight.state
      (transitionsAmong (v.workerTurn e).notes))
    (hresults : ∀ r, .completed r ∈ (v.tend e).1.notes →
      (v.workerTurn e).flight.state = .ended r.status) : (v.workerTurn e).Staged := by
  rw [← body_workerTurn e hp] at hseeks
  refine ⟨h.summoned.workerTurn, ?_, haway ▸ .of_away hseeks, fun call hcall => ?_,
    fun r hr => hresults r (completed_mem_tend hp hno hr)⟩
  · rw [job_workerTurn e hp]
    exact hwalk
  · rw [Body.dueCall_of_seeks hseeks] at hcall
    cases hcall

/-- **A turn of the worker**: the job ends, or its body is interrupted and has its turn before
the worker has another. -/
theorem Staged.workerTurn (h : v.Staged) (hp : v.post ≠ .away)
    (hdue : v.flight.body.dueCall? v.post = none)
    (hno : ∀ r, .completed r ∉ v.notes) (hv : (v.workerTurn e).Vigilant) :
    (v.workerTurn e).Staged := by
  have htended := v.tended_tend e hp
  have hnotes := notes_workerTurn e hp
  have hstate := state_workerTurn e hp
  obtain ⟨hkept, hended, -⟩ := state_tend e hp
  have hleft := (post_workerTurn e hp).2
  generalize hsq : (v.tend e).2 = sq at htended hkept hended hleft
  cases htended with
  | preempts post reason desk => exact h.preempts hp hdue hno hv hsq post desk
  | @concludes status ms uncut reason watch logs notes orders =>
    have hend : (v.workerTurn e).flight.state = .ended status := hstate.trans (hended status rfl)
    -- A body that seeks a unit would be due a call, which it is not.
    have hb : v.flight.body.seeks = false ∧
        (v.flight.body = .ended (.done status) ∨ status ≠ .success) := by
      rcases reason with ⟨-, hdone⟩ | ⟨cause, hcause, hstatus⟩
      · exact ⟨by rw [hdone]; rfl, .inl hdone⟩
      · exact ⟨Body.seeks_of_dueCall hdue (by simp [hcause]),
          .inr (Cause.status_ne_success hstatus)⟩
    refine h.leaves hp hno hb.1 (hleft (by simp)) ?_ fun r hr => ?_
    · rw [hend, hnotes, notes, transitionsAmong_append, transitionsAmong_append,
        transitions_logs logs]
      exact h.walk.step (h.body.next hp hb.1 hb.2)
    · rw [notes] at hr
      rw [hend, Engine.eq_of_mem_verdictNotes
        ((List.mem_append.1 hr).resolve_left (not_mem_logs logs r))]
      rfl
  | stops post watch notes orders =>
    obtain ⟨cause, hcause⟩ := post
    have hb := Body.seeks_of_dueCall hdue (by simp [hcause])
    refine h.leaves hp hno hb (hleft (by simp)) ?_ fun r hr => absurd hr (not_mem_logs notes r)
    rw [hstate, hkept (by simp), hnotes, transitionsAmong_append, transitions_logs notes,
      List.append_nil]
    exact h.walk

/-- **Every move keeps body, worker and state of a job in agreement.** -/
theorem Staged.passes (hy : ∀ i, (e.provisioner.acquire i).Yields) (h : v.Staged)
    (hidle : v.post = .away → v.call = .idle) (hpending : v.post ≠ .away →
        ∀ r, .completed r ∉ v.notes)
    (hv : v'.Vigilant) (hp : v.Passes e v') : v'.Staged := by
  have hs := h.summoned.passes hp
  by_cases hpost : v.post = .away
  · obtain ⟨hparted, hstate, htransitions⟩ := (h.parted hpost).passes hp
    refine ⟨hs, ?_, hparted.post ▸ .of_away hparted.seeks, fun call hcall => ?_, fun r hr => ?_⟩
    · rw [(hp.same hidle).1, hstate, htransitions]
      exact h.walk
    · rw [Body.dueCall_of_seeks hparted.seeks] at hcall
      cases hcall
    · obtain ⟨⟨t, n⟩, hseen, rfl⟩ := List.mem_map.1 hr
      rcases hp.quiet_or_turn with ⟨-, hquiet⟩ | ⟨hne, -⟩
      · rw [hstate]
        exact h.ended r (List.mem_map.2 ⟨_, hquiet t r hseen, rfl⟩)
      · exact absurd hpost hne
  have hno := hpending hpost
  cases hp with
  | @own i rest ready =>
    cases i with
    | cue c =>
      have hstays := e.stays_cueTurn (d := ({ v with ready := rest } : Lane).desk) rfl rfl c
      by_cases hc : c = .body
      · subst hc
        have hstaged := Engine.staged_bodyTurn (d := ({ v with ready := rest } : Lane).desk)
            hy rfl rfl
          h.walk h.body fun call hcall => (h.due call hcall).1
        refine staged_put (v := { v with ready := rest }) hs hstays.1 hstaged fun r hr => ?_
        exact (List.mem_append.1 hr).elim (hno r) (hstays.2.1 r)
      · have hdesk := Desk.dwells_cueTurn e ({ v with ready := rest } : Lane).desk hc
        exact (h.pop ready (by simpa using hc)).abides hs
          (abides_put hdesk (Desk.spares_cueTurn e rfl hc).body hstays.1 hstays.2.1)
    | worker =>
      refine (h.pop ready (by simp)).workerTurn hpost ?_ hno hv
      -- A body that owes a turn would have it first.
      cases hdue : v.flight.body.dueCall? v.post with
      | none => rfl
      | some call =>
        have hfirst := (h.due call hdue).2
        have hitems : v.items = .worker :: ({ v with ready := rest } : Lane).items := by
          simp [items, ready]
        rw [hitems] at hfirst
        exact absurd rfl (hfirst.head_ne (by simp))
  | other now canceled => exact h.abides hs (abides_moveTo v _)
  | cut => exact h.abides hs (abides_cut hpost)
  | round ready now later timeout => exact h.abides hs (abides_tick ready _ _)

end Lane

/-! ## Floors -/

namespace Floor

variable {e : Engine} {fl fl' m : Floor σ} {jobs : List JobInstance} {f w : Nat} {v : Lane}

/-- **At every moment of a schedule, body, worker and state of each job agree.** -/
theorem Open.staged_leads (ho : fl.Open e) (hy : ∀ i, (e.provisioner.acquire i).Yields)
    (hl : e.Leads (e.staff jobs fl) m) (hf : fl.flights.length ≤ f) (hv : m.lane? f = some v) :
    v.Staged := by
  refine ho.lanes_leads Lane.staged_launched (fun f u u' hf hfine hp hu => ?_) hl hf hv
  exact hu.passes hy (hfine.sound_new hf).idle (hfine.judged hf).pending
    ((hfine.passes hp).vigilant hf) hp

/-- No body on the floor waits for a unit. -/
def Parted (fl : Floor σ) : Prop := ∀ (f : Nat) (x : Flight), fl.flights[f]? = some x →
    x.body.seeks = false

theorem Parted.of_flights (h : fl.Parted) (hflights : fl'.flights = fl.flights) :
    fl'.Parted := by
  intro f x hx
  rw [hflights] at hx
  exact h f x hx

/-- Nor does one come to wait for a unit while somebody waits for a reception. -/
theorem Parted.moves_waits (h : fl.Parted) (ho : fl.Orderly) (hw : fl.Waits)
    (hm : e.Moves fl fl') :
    fl'.Parted := by
  intro f y hy
  rcases lane?_moves_back ho hm (lane?_eq_some.2 ⟨y, hy, rfl⟩) with
    ⟨v, hv, hp⟩ | ⟨i, w, -, hqueue, -⟩
  · obtain ⟨x, hx, rfl⟩ := lane?_eq_some.1 hv
    have hparted : (fl.laneOf f x).Parted := ⟨hw.away hv, h f x hx⟩
    exact (hparted.passes hp).1.seeks
  · rw [hw.queue] at hqueue
    cases hqueue

/-- **What is left of earlier schedules moves no job**, while others run. -/
theorem Open.parted_leads (ho : fl.Open e) (hparted : fl.Parted)
    (hl : e.Leads (e.staff jobs fl) m)
    (hf : f < fl.flights.length) (hv : m.lane? f = some v) :
    v.Parted ∧ transitionsAmong v.notes = [] := by
  have hstaff := ho.underway_staff jobs
  have hlt : f < (e.staff jobs fl).flights.length := hf
  obtain ⟨u, hu⟩ := exists_lane_of_lt hlt
  have hnothing : seenOf f fl.seen = [] := by
    refine List.filterMap_eq_nil_iff.2 fun s hs => ?_
    rw [(ho.seen s (List.mem_reverse.1 hs)).1]
    exact if_neg (by simp)
  have hfirst : u.Parted ∧ transitionsAmong u.notes = [] := by
    refine ⟨⟨((hstaff.lanes f u hu).old hf).1, ?_⟩, ?_⟩ <;> obtain ⟨x, hx, rfl⟩ :=
      lane?_eq_some.1 hu
    · exact hparted f x hx
    · show transitionsAmong ((seenOf f fl.seen).map Prod.snd) = []
      rw [hnothing]
      rfl
  obtain ⟨v', hv', hlast⟩ :=
      hstaff.lane_leads (P := fun v => v.Parted ∧ transitionsAmong v.notes = [])
    (fun n u u' _ _ _ hp h => ⟨(h.1.passes hp).1, (h.1.passes hp).2.2.trans h.2⟩) hu hfirst hl
  rw [hv] at hv'
  cases hv'
  exact hlast

end Floor

/-- **On a floor on which a schedule can be started, no body waits for a unit.** -/
theorem Engine.Opens.parted {e : Engine} {fl : Floor σ}
    (hy : ∀ i, (e.provisioner.acquire i).Yields)
    (h : e.Opens fl) : fl.Parted := by
  induction h with
  | start names processes => exact fun f x hx => by cases hx
  | tell h receiver memory ih => exact ih
  | @plan fl h span act ih => exact ih
  | @disturb fl h act ih =>
    obtain ⟨g, ts, hact, -, hbody, -⟩ := Floor.disturb_eq act fl
    intro f y hy
    rw [hact] at hy
    obtain ⟨x, hx, rfl⟩ := Option.map_eq_some_iff.1 ((List.getElem?_map ..).symm.trans hy)
    rw [(hbody x).1]
    exact ih f x hx
  | @stop fl h span ih =>
    cases span <;> exact ih
  | name h names ih => exact ih
  | forget h ih => exact ih
  | @await fl fl' a ending h run ih =>
    exact (h.isOpen.vacant.await_keeps (fun m m' _ hflights hm => hm.of_flights hflights)
      (fun m m' ho hw hm hmove => hm.moves_waits ho hw hmove) ih run).2
  | @after fl fl' jobs r h run finished ih =>
    obtain ⟨m, hl, rfl, hflights, -, hend⟩ := h.isOpen.exists_end run
    obtain ⟨-, hdone, -⟩ := hend finished
    intro f x hx
    rw [hflights] at hx
    have hv : m.lane? f = some (m.laneOf f x) := Floor.lane?_eq_some.2 ⟨x, hx, rfl⟩
    -- A flight of an earlier schedule is as it was; one of this schedule was left by its worker.
    by_cases hf : f < fl.flights.length
    · exact (h.isOpen.parted_leads ih hl hf hv).1.seeks
    · have hstaged := h.isOpen.staged_leads hy hl (Nat.le_of_not_lt hf) hv
      exact (hstaged.parted (Floor.away_of_done hdone hv)).seeks

/-! ## Jobs that are turned away -/

/-- What was seen of no flight. -/
def unflown (ss : List Sighting) : List Sighting := ss.filter fun x => x.flight = none

/-- The transitions seen of no flight. -/
def dismissed (ss : List Sighting) : List (Text × JobState × JobState) :=
  transitionsAmong ((unflown ss).map Sighting.note)

/-- The only transition of a job that is turned away. -/
def JobInstance.dismissal (i : JobInstance) : Text × JobState × JobState :=
  (i.id, .queued, .ended .canceled)

theorem dismissed_append (ss ts : List Sighting) :
    dismissed (ss ++ ts) = dismissed ss ++ dismissed ts := by
  simp [dismissed, unflown, List.filter_append]

/-- What is seen of flights does not count. -/
theorem dismissed_flown {ss : List Sighting} (h : ∀ x ∈ ss, x.flight ≠ none) :
    dismissed ss = [] := by
  have hnone : unflown ss = [] := List.filter_eq_nil_iff.2 fun x hx => by simpa using h x hx
  rw [dismissed, hnone]
  rfl

/-- Nobody outside tells of jobs. -/
theorem dismissed_outside {ss : List Sighting} (h : ∀ x ∈ ss, x.note.outside = true) :
    dismissed ss = [] := by
  refine transitionsAmong_eq_nil fun n hn => ?_
  obtain ⟨x, hx, rfl⟩ := List.mem_map.1 hn
  exact Note.transition_of_outside (h x (List.mem_filter.1 hx).1)

/-- Each job that is turned away has one transition, and the receiver moves no job. -/
theorem Engine.Clears.dismissed {e : Engine} {w time : Nat} {gone : List JobInstance}
    {ns : List Note}
    (h : e.Clears w time gone ns) :
    dismissed (ns.map fun n => ⟨time, none, n⟩) = gone.map JobInstance.dismissal := by
  induction h with
  | nothing => rfl
  | deed d next ih =>
    rw [← ih]
    cases d <;> rfl
  | answered jobId next ih =>
    rw [← ih]
    rfl
  | refused i next ih =>
    rw [List.map_cons, List.map_cons, List.map_cons, ← ih]
    rfl

namespace Floor

variable {e : Engine} {fl fl' m : Floor σ} {jobs : List JobInstance} {f w first taken : Nat}
    {v : Lane}

/-- What a move does about the queue, and what is seen of no flight in it. -/
inductive Dismisses (fl fl' : Floor σ) : Prop
  | keep (seen : dismissed fl'.sightings = dismissed fl.sightings) (queue : fl'.queue = fl.queue)
      (length : fl'.flights.length = fl.flights.length)
  /-- The first job is taken. -/
  | take {i : JobInstance} (seen : dismissed fl'.sightings = dismissed fl.sightings)
      (queue : fl.queue = i :: fl'.queue) (running : fl.around.canceled = false)
      (length : fl'.flights.length = fl.flights.length + 1)
  /-- The first jobs are turned away. -/
  | drain {gone : List JobInstance}
      (seen : dismissed fl'.sightings = dismissed fl.sightings ++ gone.map JobInstance.dismissal)
      (queue : fl.queue = gone ++ fl'.queue) (canceled : gone ≠ [] → fl.around.canceled = true)
      (length : fl'.flights.length = fl.flights.length)

theorem dismisses_sought (h : e.Sought w fl fl') : fl.Dismisses fl' := by
  cases h with
  | @nothing gone ns passes seen flights around =>
    refine .drain ?_ passes.queue passes.canceled (congrArg List.length flights)
    rw [← passes.clears.dismissed, ← dismissed_append, sightings, seen]
    simp [sightings]
  | @job i rest ns m passes running launched =>
    subst launched
    refine .take (i := i) ?_ ?_ running ?_
    · have hseen : (Engine.launch w i (fl.cleared rest m ns)).sightings =
          fl.sightings ++ (ns.map (fun n => ⟨fl.now, none, n⟩) ++
            [⟨fl.now, some fl.flights.length, .log .debug (Engine.pickUpMessage w i)⟩]) := by
        rw [launch_eq]
        simp [sightings, now, cleared, see]
      rw [hseen, dismissed_append, dismissed_append, passes.clears.dismissed]
      exact List.append_nil _
    · rw [launch_eq]
      exact passes.queue
    · rw [launch_eq]
      simp [cleared, see]

theorem dismisses_carries {jobId : Text} {sq : Sequel} (h : e.Carries w jobId fl sq fl') :
    fl.Dismisses fl' := by
  cases h with
  | stay => exact .keep rfl rfl rfl
  | stop => exact .keep rfl rfl rfl
  | free seeks => exact dismisses_sought seeks.sought

/-- What is told of a flight. -/
theorem dismissed_put (f : Nat) (d : Desk) (fl : Floor σ) :
    dismissed (fl.put f d).sightings = dismissed fl.sightings := by
  have hseen : (fl.put f d).sightings = fl.sightings ++ fl.told f d.notes := by
    simp [sightings, (putBack f d fl).seen, told]
  have hnone : dismissed (fl.told f d.notes) = [] := by
    refine dismissed_flown fun x hx => ?_
    obtain ⟨n, -, rfl⟩ := List.mem_map.1 hx
    simp
  rw [hseen, dismissed_append, hnone, List.append_nil]

theorem dismisses_workerTurn (e : Engine) (hA : fl.Assigned) (w : Nat) :
    fl.Dismisses (e.workerTurn w fl) := by
  generalize hfl' : e.workerTurn w fl = fl'
  cases hfl' ▸ e.serves_workerTurn hA w with
  | missing get => exact .keep rfl rfl rfl
  | rest get done => exact .keep rfl rfl rfl
  | stop get duty => exact .keep rfl rfl rfl
  | seek get busy off seeks =>
    cases dismisses_sought seeks.sought with
    | keep seen queue length => exact .keep seen queue length
    | take seen queue running length => exact .take seen queue running length
    | drain seen queue canceled length => exact .drain seen queue canceled length
  | @tend worker f v _ get lane own post next =>
    have hseen := dismissed_put f (v.tend e).1 (Engine.idled w fl)
    have hput := putBack f (v.tend e).1 (Engine.idled w fl)
    have haround : ((Engine.idled w fl).put f (v.tend e).1).around = fl.around := by
      rw [hput.around, (v.tends_tend e post).around]
      exact (around_of_lane lane : v.around = fl.around)
    -- What the worker does at the desk of its flight adds nothing to what is seen of no flight.
    cases dismisses_carries next with
    | keep seen queue length =>
      exact .keep (seen.trans hseen) (queue.trans hput.queue) (length.trans hput.length)
    | take seen queue running length =>
      exact .take (seen.trans hseen) (hput.queue.symm.trans queue) (haround ▸ running)
        (by rw [length, hput.length]; rfl)
    | drain seen queue canceled length =>
      rw [hseen] at seen
      exact .drain seen (hput.queue.symm.trans queue) (haround ▸ canceled)
        (length.trans hput.length)

theorem dismisses_moves (h : fl.Numbered) (hm : e.Moves fl fl') : fl.Dismisses fl' := by
  cases hm with
  | @turn t rest ready other =>
    have hA : { fl with ready := rest }.Assigned := assigned_of_same h.assigned rfl rfl
    have hsteps := steps_step e t { fl with ready := rest }
    generalize e.step t { fl with ready := rest } = fl' at hsteps
    cases hsteps with
    | @desk f v c lane =>
      exact .keep (dismissed_put f _ { fl with ready := rest }) (putBack f _ _).queue
        (putBack f _ _).length
    | worker w =>
      cases dismisses_workerTurn e hA w with
      | keep seen queue length => exact .keep seen queue length
      | take seen queue running length => exact .take seen queue running length
      | drain seen queue canceled length => exact .drain seen queue canceled length
    | errand act g ts =>
      refine .keep ?_ rfl (List.length_map _)
      -- An errand is logged, but moves no job.
      let told : List Sighting := (act.proceed fl.around).notes.map fun n => ⟨fl.now, none, n⟩
      have hseen : ∀ m : Floor σ, m.seen = told.reverse ++ fl.seen → m.sightings =
          fl.sightings ++ told := by
        intro m hm
        simp [sightings, hm]
      have hnone : dismissed told = [] := by
        refine dismissed_outside fun x hx => ?_
        obtain ⟨n, hn, rfl⟩ := List.mem_map.1 hx
        exact act.outside_proceed fl.around n hn
      rw [hseen _ rfl, dismissed_append, hnone, List.append_nil]
    | scheduler => exact absurd rfl other
    | _ => exact .keep rfl rfl rfl
  | round ready next =>
    rw [(nextRound_eq_some next).2.2]
    exact .keep rfl rfl rfl

/-- Of the jobs that were not taken, the first have been turned away, one after another, and the
others are in the queue. -/
structure Dismissed (jobs : List JobInstance) (first taken : Nat) (fl : Floor σ) : Prop where
  length : fl.flights.length = first + taken
  queue : ∃ gone, jobs.drop taken = gone ++ fl.queue ∧ (gone ≠ [] → fl.around.canceled = true) ∧
    dismissed fl.sightings = gone.map JobInstance.dismissal

theorem Dismissed.moves (h : fl.Dismissed jobs first taken) (hn : fl.Numbered)
    (hm : e.Moves fl fl') :
    ∃ taken', fl'.Dismissed jobs first taken' := by
  obtain ⟨gone, hdrop, hc, hgone⟩ := h.queue
  have hc' : gone ≠ [] → fl'.around.canceled = true := fun hne => canceled_moves hn hm (hc hne)
  cases dismisses_moves hn hm with
  | keep seen queue length =>
    exact ⟨taken, length.trans h.length, gone, by rw [queue, hdrop], hc', seen.trans hgone⟩
  | @take i seen queue running length =>
    have hnone : gone = [] := by
      by_contra hne
      rw [hc hne] at running
      cases running
    refine ⟨taken + 1, by rw [length, h.length, Nat.add_assoc], [], ?_, by simp, ?_⟩
    · rw [← List.tail_drop, hdrop, hnone, queue]
      rfl
    · rw [seen, hgone, hnone]
  | @drain gone' seen queue canceled length =>
    refine ⟨taken, length.trans h.length, gone ++ gone', ?_, fun hne => ?_, ?_⟩
    · rw [hdrop, queue, List.append_assoc]
    · by_cases hnone : gone = []
      · exact canceled_moves hn hm (canceled (by simpa [hnone] using hne))
      · exact hc' hnone
    · rw [seen, hgone, List.map_append]

/-- **At every moment of a schedule, each job that was turned away has one transition.** -/
theorem Open.dismissed_leads (ho : fl.Open e) (hl : e.Leads (e.staff jobs fl) m) :
    ∃ taken, m.Dismissed jobs fl.flights.length taken := by
  have hrun := hl.keeps
    (P := fun m => m.Orderly ∧ ∃ taken, m.Dismissed jobs fl.flights.length taken) ?_
    ⟨ho.orderly_staff jobs, 0, rfl, [], rfl, by simp, ?_⟩
  · exact hrun.2
  · rintro m m' ⟨hm, taken, hd⟩ hmove
    exact ⟨hm.moves hmove, hd.moves hm.numbered hmove⟩
  · exact dismissed_outside fun x hx => (ho.seen x (List.mem_reverse.1 hx)).2

/-- When nobody waits any longer, all jobs that were not taken have been turned away. -/
theorem Dismissed.of_empty (h : m.Dismissed jobs first taken) (hqueue : m.queue = []) :
    dismissed m.sightings = (jobs.drop taken).map JobInstance.dismissal := by
  obtain ⟨gone, hdrop, -, hgone⟩ := h.queue
  rw [hdrop, hqueue, List.append_nil]
  exact hgone

end Floor

/-! ## Paths -/

/-- The ways of a job from the queue to its result. -/
inductive JobResult.Path (r : JobResult) : List (Text × JobState × JobState) → Prop
  | neverStarted (start : r.startedAt = none) (status : r.status = .canceled) :
      Path r [(r.jobId, .queued, .ended .canceled)]
  /-- The job did not run, and so it had no success. -/
  | unprovided (start : r.startedAt ≠ none) (status : r.status ≠ .success) :
      Path r [(r.jobId, .queued, .provisioning), (r.jobId, .provisioning, .ended r.status)]
  | ran (start : r.startedAt ≠ none) :
      Path r [(r.jobId, .queued, .provisioning), (r.jobId, .provisioning, .running),
        (r.jobId, .running, .ended r.status)]

/-- The path of a job that was taken. -/
theorem Lane.Staged.path {e : Engine} {v : Lane} (h : v.Staged) (hj : v.Judged e) {t : Nat}
    {r : JobResult}
    (hr : (t, .completed r) ∈ v.seen) : r.Path (transitionsAmong v.notes) := by
  obtain ⟨before, after, -, hwarranted⟩ := hj.results t r hr
  have hid : r.jobId = v.flight.job.id := by
    rw [hwarranted.result]
    rfl
  have hstart : r.startedAt ≠ none := by
    rw [hwarranted.result]
    exact Option.some_ne_none _
  have hwalk := h.walk
  rw [h.ended r (List.mem_map.2 ⟨_, hr, rfl⟩), ← hid] at hwalk
  rcases hwalk.of_ended with ⟨hstatus, hts⟩ | hts
  · rw [hts]
    exact .unprovided hstart hstatus
  · rw [hts]
    exact .ran hstart

/-- The path of a job that was turned away. -/
theorem Engine.path_refusal (e : Engine) (i : JobInstance) (time : Nat) :
    (e.resultAt i none time .canceled []).Path [i.dismissal] := .neverStarted rfl rfl

/-! ## Reports -/

/-- The transitions seen of a flight, or of none, are those with the id of the job, if no others
are. -/
theorem filter_transitionsAmong {ss : List Sighting} {jobId : Text} {flight : Option Nat}
    (h : ∀ x ∈ ss, ∀ t, x.note.transition? = some t → t.1 = jobId → x.flight = flight) :
    (transitionsAmong (ss.map Sighting.note)).filter (fun t => t.1 = jobId) =
      (transitionsAmong ((ss.filter fun x => x.flight = flight).map Sighting.note)).filter
        fun t => t.1 = jobId := by
  induction ss with
  | nil => rfl
  | cons x rest ih =>
    have ihrest := ih fun y hy => h y (List.mem_cons_of_mem x hy)
    rw [List.map_cons, transitionsAmong_cons, List.filter_append, ihrest, List.filter_cons]
    split
    · rw [List.map_cons, transitionsAmong_cons, List.filter_append]
    · rename_i hflight
      have hother : x.note.transition?.toList.filter (fun t => t.1 = jobId) = [] := by
        refine List.filter_eq_nil_iff.2 fun t ht hid => hflight (decide_eq_true ?_)
        exact h x List.mem_cons_self t (Option.mem_toList.1 ht) (of_decide_eq_true hid)
      rw [hother, List.nil_append]

namespace ScheduleReport

theorem noted_eq (s : ScheduleReport) (f : Nat) :
    s.noted f = (s.sightings.filter fun x => x.flight = some f).map Sighting.note := by
  unfold noted seenOf Conveyor.seenOf
  rw [List.reverse_reverse]
  generalize s.sightings = ss
  induction ss with
  | nil => rfl
  | cons x rest ih =>
    by_cases hx : x.flight = some f
    · simp [hx, ih]
    · simp [hx, ih]

/-- The transitions of the jobs with an id. -/
def transitionsOf (s : ScheduleReport) (jobId : Text) : List (Text × JobState × JobState) :=
  (transitionsAmong (s.notes.map Prod.snd)).filter fun t => t.1 = jobId

/-- How the job at a place got its result, if the flights have numbers from `first` on and the
first `taken` jobs were taken. -/
inductive Ends (s : ScheduleReport) (first taken k : Nat) (i : JobInstance) (r : JobResult) :
    Prop
  | flown (place : k < taken) (jobId : r.jobId = i.id) (seen : .completed r ∈
      s.noted (first + k))
      (path : r.Path (transitionsAmong (s.noted (first + k))))
  | turnedAway {time : Nat} (place : taken ≤ k) (jobId : r.jobId = i.id)
      (seen : ⟨time, none, .completed r⟩ ∈ s.sightings) (unseen : s.noted (first + k) = [])
      (path : r.Path [i.dismissal])

/-- What is seen of the states of the jobs in a schedule that returned its results. -/
structure Paths (s : ScheduleReport) (jobs : List JobInstance) (first taken : Nat)
    (results : List JobResult) : Prop where
  /-- Each job has its own path. -/
  ends : ∀ (k : Nat) (i : JobInstance), jobs[k]? = some i → ∃ r, s.Ends first taken k i r
  /-- The jobs that were turned away have one transition each. -/
  dismissed : dismissed s.sightings = (jobs.drop taken).map JobInstance.dismissal
  /-- The result that is returned for a job is that of a job with the same id. -/
  returned : ∀ (k : Nat) (i : JobInstance) (r : JobResult), jobs[k]? = some i → results[k]? =
      some r →
    ∃ k' i', jobs[k']? = some i' ∧ i'.id = i.id ∧ s.Ends first taken k' i' r
  /-- If no two jobs have the same id, it has the path of all that is seen of that id. -/
  unique : (jobs.map JobInstance.id).Nodup → ∀ (k : Nat) (i : JobInstance) (r : JobResult),
    jobs[k]? = some i → results[k]? = some r → r.Path (s.transitionsOf i.id)
  /-- The jobs of earlier schedules do not move any more. -/
  earlier : ∀ f < first, transitionsAmong (s.noted f) = []
  /-- The log tells of all transitions. -/
  logged : ∀ x ∈ s.sightings, ∀ jobId source target, x.note.transition? =
      some (jobId, source, target) →
    ∃ remark, ⟨x.time, .info, "Job " ++ jobId ++ ": " ++ source.word ++ " -> " ++ target.word ++
        remark⟩ ∈
      s.log

end ScheduleReport

theorem JobResult.Path.jobId_eq {r : JobResult} {ts : List (Text × JobState × JobState)}
    (h : r.Path ts)
    {t : Text × JobState × JobState} (ht : t ∈ ts) : t.1 = r.jobId := by
  cases h with
  | neverStarted start status => rw [List.mem_singleton.1 ht]
  | unprovided start status =>
    simp only [List.mem_cons, List.not_mem_nil, or_false] at ht
    rcases ht with rfl | rfl <;> rfl
  | ran start =>
    simp only [List.mem_cons, List.not_mem_nil, or_false] at ht
    rcases ht with rfl | rfl | rfl <;> rfl

/-- Among jobs with different ids, one transition belongs to each that was turned away. -/
theorem filter_dismissal {jobs : List JobInstance} (hids : (jobs.map JobInstance.id).Nodup)
    {i : JobInstance}
    (hi : i ∈ jobs) : (jobs.map JobInstance.dismissal).filter (fun t => t.1 = i.id) =
    [i.dismissal] := by
  have hcount := List.count_eq_one_of_mem hids (List.mem_map_of_mem hi)
  have hmap : jobs.map JobInstance.dismissal =
      (jobs.map JobInstance.id).map fun jobId =>
        (jobId, JobState.queued, JobState.ended .canceled) := by
    rw [List.map_map]
    rfl
  rw [hmap, List.filter_map]
  show ((jobs.map JobInstance.id).filter fun jobId => jobId = i.id).map _ = _
  rw [List.filter_eq, hcount]
  rfl

namespace Floor

variable {e : Engine} {fl m : Floor σ} {jobs : List JobInstance} {first taken k t : Nat}
    {i : JobInstance}
  {r : JobResult}

/-- A transition is seen of the flight of a job with that id, or of none if the job was turned
away. -/
theorem Open.exists_mover (ho : fl.Open e) (hparted : fl.Parted)
    (hy : ∀ i, (e.provisioner.acquire i).Yields) (hl : e.Leads (e.staff jobs fl) m)
    (hdealt : m.Dealt e jobs fl.flights.length taken)
    (hdismissed : m.Dismissed jobs fl.flights.length taken)
    {x : Sighting} (hx : x ∈ m.sightings) {t : Text × JobState × JobState}
    (ht : x.note.transition? = some t) :
    ∃ k i, jobs[k]? = some i ∧ i.id = t.1 ∧
      x.flight = if k < taken then some (fl.flights.length + k) else none := by
  have hunder := (ho.underway_staff jobs).leads hl
  cases hflight : x.flight with
  | none =>
    have hmem : t ∈ dismissed m.sightings := List.mem_filterMap.2
      ⟨x.note, List.mem_map.2 ⟨x, List.mem_filter.2 ⟨hx, decide_eq_true hflight⟩, rfl⟩, ht⟩
    -- Of no flight, only those that were turned away have moved.
    have hall : t ∈ (jobs.drop taken).map JobInstance.dismissal := by
      obtain ⟨gone, hdrop, -, hgone⟩ := hdismissed.queue
      rw [hgone] at hmem
      rw [hdrop, List.map_append]
      exact List.mem_append_left _ hmem
    obtain ⟨i, hi, rfl⟩ := List.mem_map.1 hall
    obtain ⟨k, hk, hi⟩ := mem_drop_iff.1 hi
    exact ⟨k, i, hi, rfl, (if_neg (Nat.not_lt.2 hk)).symm⟩
  | some f =>
    have hseen : ⟨x.time, some f, x.note⟩ ∈ m.seen := hflight ▸ List.mem_reverse.1 hx
    obtain ⟨v, hv⟩ := exists_lane_of_lt (hunder.orderly.numbered.seen _ hseen f rfl)
    have hmem : t ∈ transitionsAmong v.notes :=
      List.mem_filterMap.2 ⟨x.note, List.mem_map.2 ⟨_, (mem_seen_lane hv).2 hseen, rfl⟩, ht⟩
    -- Flights of earlier schedules do not move any more.
    by_cases hf : f < fl.flights.length
    · rw [(ho.parted_leads hparted hl hf hv).2] at hmem
      cases hmem
    · have hstaged := ho.staged_leads hy hl (Nat.le_of_not_lt hf) hv
      obtain ⟨k, rfl⟩ := Nat.exists_eq_add_of_le (Nat.le_of_not_lt hf)
      obtain ⟨hk, hi⟩ := hdealt.job_of_lane hv
      exact ⟨k, v.flight.job, hi, (hstaged.walk.jobId_eq hmem).symm, (if_pos hk).symm⟩

/-- A job that was taken ends with the result that was seen of its flight. -/
theorem Dealt.ends_flown (hd : m.Dealt e jobs first taken) (hu : m.Underway e jobs first)
    (hstaged : ∀ v, m.lane? (first + k) = some v → v.Staged) (hi : jobs[k]? = some i)
    (hk : k < taken)
    (hr : ⟨t, some (first + k), .completed r⟩ ∈ m.sightings) :
    (m.reportOf jobs).Ends first taken k i r := by
  obtain ⟨v, hv, rfl⟩ := hd.exists_lane hi hk
  have hseen : (t, .completed r) ∈ v.seen := (mem_seen_lane hv).2 (List.mem_reverse.1 hr)
  refine .flown hk (hu.jobId_of_completed hv hseen).2 ?_ ?_
  · rw [Engine.noted_reportOf hv]
    exact List.mem_map.2 ⟨_, hseen, rfl⟩
  · rw [Engine.noted_reportOf hv]
    exact (hstaged v hv).path ((hu.lanes _ v hv).judged (Nat.le_add_right _ _)) hseen

/-- A job that was turned away ends with the result that was seen then. -/
theorem Dealt.ends_turnedAway (hd : m.Dealt e jobs first taken) (hu : m.Underway e jobs first)
    (hk : taken ≤ k) (hr : e.refusal i t ∈ m.seen) :
    (m.reportOf jobs).Ends first taken k i (e.resultAt i none t .canceled []) := by
  refine .turnedAway hk rfl (List.mem_reverse.2 hr) ?_ (e.path_refusal i t)
  unfold ScheduleReport.noted
  rw [seenOf_reportOf, hu.orderly.numbered.seenOf_eq_nil, List.map_nil]
  rw [hd.length]
  omega

/-- The result that is kept for an id is that of a job with that id. -/
theorem Dealt.exists_ends (hd : m.Dealt e jobs first taken) (hu : m.Underway e jobs first)
    (hstaged : ∀ f v, first ≤ f → m.lane? f = some v → v.Staged) {jobId : Text}
    (hr : (m.reportOf jobs).resultFor jobId = some r) :
    ∃ k i, jobs[k]? = some i ∧ i.id = jobId ∧ (m.reportOf jobs).Ends first taken k i r := by
  obtain ⟨t, hcompleted, rfl⟩ := ScheduleReport.resultFor_eq_some hr
  obtain ⟨flight, hmem⟩ := ScheduleReport.mem_completed.1 hcompleted
  have hseen : ⟨t, flight, .completed r⟩ ∈ m.seen := List.mem_reverse.1 hmem
  cases flight with
  | none =>
    obtain ⟨k, i, hk, hi, rfl⟩ := hd.of_turnedAway hseen
    exact ⟨k, i, hi, rfl, hd.ends_turnedAway hu hk hseen⟩
  | some f =>
    obtain ⟨k, v, rfl, hk, -, -, hi, hid⟩ := hd.of_flown hu hseen
    exact ⟨k, v.flight.job, hi, hid.symm,
      hd.ends_flown hu (hstaged _ · (Nat.le_add_right _ _)) hi hk hmem⟩

/-- When all workers are done, every job has ended. -/
theorem Dealt.ends_of_done (hd : m.Dealt e jobs first taken) (hu : m.Underway e jobs first)
    (hstaged : ∀ f v, first ≤ f → m.lane? f = some v → v.Staged) (hstop : ¬m.Stopped)
    (hdone : ∀ worker ∈ m.workers, worker.duty = .done false) (hqueue : m.queue = [])
    (hi : jobs[k]? = some i) : ∃ r, (m.reportOf jobs).Ends first taken k i r := by
  rcases Nat.lt_or_ge k taken with hk | hk
  · obtain ⟨v, hv, -⟩ := hd.exists_lane hi hk
    obtain ⟨t, r, hr⟩ :=
      (hu.ledger.left _ v (Nat.le_add_right _ _) hv (away_of_done hdone hv)).resolve_left hstop
    have hmem := List.mem_reverse.2 ((mem_seen_lane hv).1 hr)
    exact ⟨r, hd.ends_flown hu (hstaged _ · (Nat.le_add_right _ _)) hi hk hmem⟩
  · obtain ⟨time, hseen⟩ := hd.exists_refusal hqueue hi hk
    exact ⟨_, hd.ends_turnedAway hu hk hseen⟩

/-- If no two jobs have the same id, all that is seen of the id of a job is its own path. -/
theorem Open.path_transitionsOf (ho : fl.Open e) (hparted : fl.Parted)
    (hy : ∀ i, (e.provisioner.acquire i).Yields) (hl : e.Leads (e.staff jobs fl) m)
    (hdealt : m.Dealt e jobs fl.flights.length taken)
    (hdismissed : m.Dismissed jobs fl.flights.length taken)
    (hqueue : m.queue = []) (hids : (jobs.map JobInstance.id).Nodup) (hi : jobs[k]? = some i)
    (h : (m.reportOf jobs).Ends fl.flights.length taken k i r) :
    r.Path ((m.reportOf jobs).transitionsOf i.id) := by
  -- Whatever moves the id of this job moves this job, and so is seen of its flight, or of none.
  have hflight : ∀ x ∈ m.sightings, ∀ t, x.note.transition? = some t → t.1 = i.id →
      x.flight = if k < taken then some (fl.flights.length + k) else none := by
    intro x hx t ht hid
    obtain ⟨k', i', hi', hid', hmover⟩ := ho.exists_mover hparted hy hl hdealt hdismissed hx ht
    rwa [index_unique hids hi hi' (hid'.trans hid)] at hmover
  have hof : (m.reportOf jobs).transitionsOf i.id =
      (transitionsAmong (m.sightings.map Sighting.note)).filter fun t => t.1 = i.id := by
    unfold ScheduleReport.transitionsOf ScheduleReport.notes
    rw [List.map_map]
    rfl
  rw [hof, filter_transitionsAmong hflight]
  cases h with
  | flown place jobId seen path =>
    have hown : ∀ t ∈ transitionsAmong ((m.reportOf jobs).noted (fl.flights.length + k)),
        t.1 = i.id :=
      fun t ht => (path.jobId_eq ht).trans jobId
    have hnoted : (m.reportOf jobs).noted (fl.flights.length + k) =
        (m.sightings.filter fun x => x.flight = some (fl.flights.length + k)).map
          Sighting.note :=
      ScheduleReport.noted_eq _ _
    rw [hnoted] at path hown
    rw [if_pos place, List.filter_eq_self.2 fun t ht => decide_eq_true (hown t ht)]
    exact path
  | turnedAway place jobId seen unseen path =>
    have hids' : ((jobs.drop taken).map JobInstance.id).Nodup := by
      rw [List.map_drop]
      exact hids.sublist (List.drop_sublist _ _)
    have hall := hdismissed.of_empty hqueue
    unfold dismissed unflown at hall
    rw [if_neg (Nat.not_lt.2 place), hall,
      filter_dismissal hids' (mem_drop_iff.2 ⟨_, place, hi⟩)]
    exact path

end Floor

namespace Engine

variable {e : Engine} {fl fl' : Floor σ} {jobs : List JobInstance} {s : ScheduleReport}
  {results : List JobResult} {plan : ProvisionPlan}

/-- **Jobs of earlier schedules have no transitions**, at any moment of a schedule. -/
theorem silent_leads (ho : e.Opens fl) (hy : ∀ i, (e.provisioner.acquire i).Yields) {m : Floor σ}
    (hl : e.Leads (e.staff jobs fl) m) (f : Nat) (hf : f < fl.flights.length) :
    transitionsAmong ((m.reportOf jobs).noted f) = [] := by
  have hunder := (ho.isOpen.underway_staff jobs).leads hl
  obtain ⟨v, hv⟩ := Floor.exists_lane_of_lt (Nat.lt_of_lt_of_le hf hunder.ledger.earlier)
  rw [noted_reportOf hv]
  exact (ho.isOpen.parted_leads (ho.parted hy) hl hf hv).2

/-- **Each job goes one path from the queue to its result, and goes no further**: neither while
the schedule goes on, nor afterwards, whatever else runs on the floor. -/
theorem one_path (ho : e.Opens fl) (hplan : e.provisioner = plan.provisioner)
    (hrun : e.reportSchedule jobs fl = some (s, fl')) (hres : s.results = some results) :
    (∃ taken, s.Paths jobs fl.flights.length taken results) ∧
      ∀ jobs' receiver memory m,
      e.Leads (e.staff jobs' { fl' with receiver := receiver, memory := memory }) m →
        ∀ f < fl'.flights.length, transitionsAmong ((m.reportOf jobs').noted f) = [] := by
  have hy : ∀ i, (e.provisioner.acquire i).Yields := fun i => by
    rw [hplan]
    exact plan.yields_acquire i
  have hfinished := (ScheduleReport.results_eq_some.1 hres).1
  refine ⟨?_, fun jobs' receiver memory m hl =>
    silent_leads (.tell (.after ho hrun hfinished) receiver memory) hy hl⟩
  have hfor : ∀ (k : Nat) (i : JobInstance) (r : JobResult), jobs[k]? = some i → results[k]? =
      some r →
      s.resultFor i.id = some r := fun _ _ _ => resultFor_of_getElem? ho hrun hres
  obtain ⟨m, hl, rfl, -, -, hend⟩ := ho.isOpen.exists_end hrun
  obtain ⟨hstop, hdone, hqueue⟩ := hend hfinished
  have hunder := (ho.isOpen.underway_staff jobs).leads hl
  have hstaged : ∀ f v, fl.flights.length ≤ f → m.lane? f = some v → v.Staged :=
    fun f v => ho.isOpen.staged_leads hy hl
  obtain ⟨taken, hdealt⟩ := ho.isOpen.dealt_leads hl
  obtain ⟨taken', hdismissed⟩ := ho.isOpen.dismissed_leads hl
  -- Both counts say how many jobs were taken.
  obtain rfl : taken' = taken :=
    Nat.add_left_cancel (hdismissed.length.symm.trans hdealt.length)
  refine ⟨taken', ⟨fun k i hi => ?_, hdismissed.of_empty hqueue, fun k i r hi hr => ?_,
    fun hids k i r hi hr => ?_, silent_leads ho hy hl,
    fun x hx jobId source target => ScheduleReport.exists_logged hx⟩⟩
  · exact hdealt.ends_of_done hunder hstaged hstop hdone hqueue hi
  · exact hdealt.exists_ends hunder hstaged (hfor k i r hi hr)
  · obtain ⟨k', i', hi', hid, hends⟩ := hdealt.exists_ends hunder hstaged (hfor k i r hi hr)
    obtain rfl := index_unique hids hi hi' hid
    rw [hi] at hi'
    cases hi'
    exact ho.isOpen.path_transitionsOf (ho.parted hy) hy hl hdealt hdismissed hqueue hids
      hi hends

/-- A plan by which job `a` waits two seconds for its unit, and goes on when it is interrupted,
and units with the image `bad` cannot be had. -/
def slowPlan : ProvisionPlan :=
  { ProvisionPlan.smooth with
    fail := [("bad", "no such image")], acquireMs := [("a", 2000)], acquireSwallow := ["a"] }

/-- Four jobs: one is interrupted while it waits for its unit and then does not stop, one gets no
unit, one cancels the run, and one is left. -/
def waywardJobs : List JobInstance :=
  [.rehearsal "a" "" (.ofInt 1) ["stubborn 9000"], .rehearsal "b" "bad" (.ofInt 60) ["exit 0"],
   .rehearsal "c" "" (.ofInt 60) ["cancel"], .rehearsal "d" "" (.ofInt 60) ["exit 0"]]

/-- What is seen of them with one slot. -/
def waywardPaths : List (List (Text × JobState × JobState)) :=
  [[("a", .queued, .provisioning), ("a", .provisioning, .running),
      ("a", .running, .ended .timedOut)],
   [("b", .queued, .provisioning), ("b", .provisioning, .ended .failed)],
   [("c", .queued, .provisioning), ("c", .provisioning, .running),
    ("c", .running, .ended .canceled)],
   [("d", .queued, .ended .canceled)]]

/-- The first job is abandoned when it runs at last, the second fails without having run, and the
fourth is never started. -/
theorem one_path_oneSlot :
    ∃ s fl' results, (rehearsal slowPlan 1).reportSchedule waywardJobs (.start 0 0 ()) =
    some (s, fl') ∧
      s.results = some results ∧
      (waywardJobs.map fun i => s.transitionsOf i.id) = waywardPaths ∧
      (∃ taken, s.Paths waywardJobs 0 taken results) ∧
      ∀ jobs' receiver memory m, (rehearsal slowPlan 1).Leads ((rehearsal slowPlan 1).staff jobs'
          { fl' with receiver := receiver, memory := memory }) m →
        ∀ f < fl'.flights.length, transitionsAmong ((m.reportOf jobs').noted f) = [] := by
  have hrun : ((rehearsal slowPlan 1).reportIn 120 waywardJobs (.start 0 0 ())).map
      (fun r => (r.1.results.isSome, waywardJobs.map fun i => r.1.transitionsOf i.id)) =
      some (true, waywardPaths) := by
    decide +kernel
  obtain ⟨⟨s, fl'⟩, hreport, hseen⟩ := Option.map_eq_some_iff.1 hrun
  obtain ⟨hsome, htransitions⟩ := Prod.mk.inj hseen
  obtain ⟨results, hres⟩ := Option.isSome_iff_exists.1 hsome
  have hschedule := reportSchedule_of_reportIn rfl hreport
  have hplan : (rehearsal slowPlan 1).provisioner = slowPlan.provisioner := rfl
  obtain ⟨hpaths, hsilent⟩ := one_path (.start 0 0 ()) hplan hschedule hres
  exact ⟨s, fl', results, hschedule, hres, htransitions, hpaths, hsilent⟩

end Engine

end Conveyor
