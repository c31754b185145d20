import Conveyor.Proofs.Schedule.Awaiting
import Conveyor.Proofs.Step.Tenancy

/-!
# Timesheets

The steps of a job are run one after another, and their results say how long each of them took.
So all together they took no more time than has passed since the job was taken, whatever the body
has still to do.

- `Flight.PacedAt`: the recorded steps took no more than the time since the job was taken.
- `Flight.Timesheet`: and it will stay so.
- `Engine.timesheet_cueTurn`: **every turn on a flight keeps its timesheet**.
- `Lane.Clocked`: the same for the results of the job; `Lane.Clocked.passes`.
-/

namespace Conveyor

variable {σ : Type}

open Activity

/-- The recorded steps took no more than the time since the job was taken. -/
def Flight.PacedAt (time : Nat) (x : Flight) : Prop :=
  x.takenAt + nanosPerMilli * spentMs x.steps ≤ time

/-- The recorded steps took no more than the time since the job was taken. While the body is in
the steps, `ms` are the notes of these alone. -/
structure Flight.Timesheet (time : Nat) (x : Flight) : Prop where
  paced : x.PacedAt time
  stepping : ∀ u next, x.body = .stepping u next → ∃ ms, recordedAmong ms = x.steps ∧
    (Rest.waiting 0 next).Keeps (Occupied x.takenAt) (fun t ns _ => Vacant x.takenAt t ns) time
      ms

namespace Flight

variable {x y : Flight} {time time' : Nat}

theorem PacedAt.congr (h : x.PacedAt time) (htaken : y.takenAt = x.takenAt)
    (hsteps : y.steps = x.steps) : y.PacedAt time := by
  unfold PacedAt
  rw [htaken, hsteps]
  exact h

/-- A body that is not in the steps has nothing to record. -/
theorem PacedAt.timesheet (h : x.PacedAt time) (htaken : y.takenAt = x.takenAt)
    (hsteps : y.steps = x.steps) (hbody : ∀ u next, y.body ≠ .stepping u next) :
    y.Timesheet time :=
  ⟨h.congr htaken hsteps, fun u next hstep => absurd hstep (hbody u next)⟩

/-- Time may pass. -/
theorem Timesheet.later (h : x.Timesheet time) (ht : time ≤ time') : x.Timesheet time' := by
  refine ⟨Nat.le_trans h.paced ht, fun u next hbody => ?_⟩
  obtain ⟨ms, hms, hkeeps⟩ := h.stepping u next hbody
  exact ⟨ms, hms, hkeeps.later (fun hq => ⟨hq.1.later ht, hq.2⟩) ht⟩

theorem Timesheet.congr (h : x.Timesheet time) (htaken : y.takenAt = x.takenAt)
    (hsteps : y.steps = x.steps) (hbody : y.body = x.body) : y.Timesheet time := by
  refine ⟨h.paced.congr htaken hsteps, fun u next hstep => ?_⟩
  rw [htaken, hsteps]
  exact h.stepping u next (hbody.symm.trans hstep)

end Flight

namespace Desk

variable {d : Desk} {time : Nat}

theorem timesheet_endBody (h : d.flight.PacedAt time) (ending : Ending JobStatus) :
    (d.endBody ending).flight.Timesheet time := by
  rw [endBody_eq]
  exact h.timesheet rfl rfl fun _ _ hbody => by cases hbody

theorem timesheet_pauseBody {state : Body} {span : Nat}
    (h : (d.edit fun x => { x with body := state }).flight.Timesheet time) :
    (d.pauseBody state span).flight.Timesheet time := by
  unfold pauseBody callBody
  dsimp only
  split
  · split
    · exact h.congr rfl rfl rfl
    · exact h
  · exact h

/-- What is done outside is no step of the job. -/
theorem pacedAt_absorb {α : Type} (h : d.flight.PacedAt time) (a : Activity Deed α)
    (s : Surroundings) :
    (d.absorb (a.proceed s)).flight.PacedAt time := by
  refine h.congr rfl ?_
  show d.flight.steps ++ recordedAmong (a.proceed s).notes = d.flight.steps
  rw [recordedAmong_outside (a.outside_proceed s), List.append_nil]

end Desk

namespace Engine

open Desk

variable {e : Engine} {d : Desk}

/-- When the steps are over, the release is to start. -/
theorem timesheet_beginRelease {time : Nat} (h : d.flight.PacedAt time) (u : ExecutionUnit)
    (ending : Ending JobStatus) : (e.beginRelease u ending d).flight.Timesheet time := by
  unfold beginRelease
  dsimp only
  split
  · exact h.timesheet rfl rfl fun _ _ hbody => by cases hbody
  · exact h.timesheet rfl rfl fun _ _ hbody => by cases hbody

/-- A turn in the steps; `ms` are the notes of the steps so far. -/
theorem timesheet_afterSteps (u : ExecutionUnit) {a : Activity StepNote Bool} {ms : List Note}
    (hr : recordedAmong ms = d.flight.steps)
    (ha : a.Keeps (Occupied d.flight.takenAt) (fun t ns _ => Vacant d.flight.takenAt t ns)
        d.around.now
      ms) :
    (e.afterSteps u (a.proceed d.around) d).flight.Timesheet d.around.now := by
  have hrest := ha.proceed
  have hr' : recordedAmong (ms ++ (a.proceed d.around).notes) =
      (d.absorb (a.proceed d.around)).flight.steps := by
    rw [recordedAmong_append, hr]
    rfl
  have hpaced : Paced d.flight.takenAt d.around.now (ms ++ (a.proceed d.around).notes) →
      (d.absorb (a.proceed d.around)).flight.PacedAt d.around.now := by
    intro hp
    unfold Paced at hp
    rw [hr'] at hp
    exact hp
  unfold afterSteps
  split
  · rename_i ending hend
    rw [hend] at hrest
    have hvacant : Vacant d.flight.takenAt d.around.now (ms ++ (a.proceed d.around).notes) :=
      hrest
    exact timesheet_beginRelease (hpaced hvacant.1) u _
  · rename_i span next hend
    rw [hend] at hrest
    have hocc : Occupied d.flight.takenAt d.around.now (ms ++ (a.proceed d.around).notes) :=
      hrest.1
    refine timesheet_pauseBody ⟨(hpaced hocc.1).congr rfl rfl, fun v next' hbody => ⟨_, hr', ?_⟩⟩
    cases hbody
    exact hrest

/-- The first turn in the steps. -/
theorem timesheet_beginSteps (h : d.flight.PacedAt d.around.now) (u : ExecutionUnit) :
    (e.beginSteps u d).flight.Timesheet d.around.now := by
  have hrecorded : recordedAmong (d.flight.steps.map Note.recorded ++ [.acquired]) =
      d.flight.steps := by
    rw [recordedAmong_append, recordedAmong_recorded]
    exact List.append_nil _
  refine timesheet_afterSteps (d := (d.see .acquired).move .running) u hrecorded
    (StepContext.keeps_runSteps _ _ _ ⟨?_, [], ?_⟩)
  · unfold Paced
    rw [hrecorded]
    exact h
  · rw [unitNotes_append, unitNotes_recorded]
    rfl

/-- The acquisition failed: that is recorded, and took no time. -/
theorem timesheet_refuse {time : Nat} (h : d.flight.PacedAt time) (fault : Fault) :
    (refuse fault d).flight.Timesheet time := by
  unfold refuse
  refine timesheet_endBody ?_ _
  show _ + nanosPerMilli * spentMs (d.flight.steps ++ [_]) ≤ time
  rw [spentMs_append]
  exact h

/-- A turn in the acquisition. -/
theorem timesheet_afterAcquire (h : d.flight.PacedAt d.around.now)
    (a : Activity Deed ExecutionUnit) :
    (e.afterAcquire (a.proceed d.around) d).flight.Timesheet d.around.now := by
  have hp := pacedAt_absorb h a d.around
  have hnow : (d.absorb (a.proceed d.around)).around.now = d.around.now := a.proceed_now d.around
  unfold afterAcquire
  split
  · rw [← hnow] at hp ⊢
    exact timesheet_beginSteps hp _
  · exact timesheet_refuse hp _
  · exact timesheet_endBody hp _
  · exact timesheet_pauseBody (hp.timesheet rfl rfl fun _ _ hbody => by cases hbody)

/-- **A turn of the body keeps the timesheet.** -/
theorem timesheet_bodyTurn (h : d.flight.Timesheet d.around.now) :
    (e.bodyTurn d).flight.Timesheet d.around.now := by
  have hp : (d.edit fun x => { x with bodyCall := .idle }).flight.PacedAt d.around.now := h.paced
  unfold bodyTurn
  dsimp only
  split
  · split
    · exact timesheet_endBody hp _
    · exact timesheet_afterAcquire
        (d := Desk.move .provisioning (d.edit fun x => { x with bodyCall := .idle })) hp _
  · exact timesheet_afterAcquire hp _
  · rename_i u next hbody
    obtain ⟨ms, hms, hkeeps⟩ := h.stepping u next hbody
    exact timesheet_afterSteps (d := d.edit fun x => { x with bodyCall := .idle }) u hms
      (hkeeps.2 _ _ (Nat.le_refl _))
  · rename_i u ending hbody
    unfold afterGrace
    split
    · exact timesheet_endBody (d := Desk.dropTimer .grace (d.edit _)) hp _
    · exact timesheet_endBody (d := Desk.log .error _ (Desk.dropTimer .grace (d.edit _))) hp _
    · exact timesheet_endBody (d := Desk.dropTimer .grace (d.edit _)) hp _
    · unfold cutRelease
      dsimp only
      split
      · exact hp.timesheet rfl rfl fun _ _ hb => by cases hb
      · exact hp.timesheet rfl rfl fun _ _ hb => by cases hb
  · rename_i u ending passOn hbody
    unfold afterCut
    split
    · exact timesheet_endBody hp _
    · split
      · exact timesheet_endBody hp _
      · exact timesheet_endBody (d := Desk.log .error _ (d.edit _)) hp _
      · exact timesheet_endBody (d := Desk.log .error _ (d.edit _)) hp _
      · exact h.congr rfl rfl rfl
  · exact h.congr rfl rfl rfl

/-- **Every turn on a flight keeps its timesheet.** -/
theorem timesheet_cueTurn (h : d.flight.Timesheet d.around.now) (hn : d.notes = [])
    (ho : d.orders = []) (hidle : d.post = .away → d.call = .idle) (c : Cue) :
    (e.cueTurn c d).flight.Timesheet d.around.now := by
  by_cases hc : c = .body
  · subst hc
    exact timesheet_bodyTurn h
  · have hs := spares_cueTurn e hn hc
    exact h.congr (e.fits_cueTurn hn ho hidle c).takenAt hs.steps hs.body

end Engine

/-- Steps that were never run took no time. -/
theorem spentMs_missingFrom (recorded : List StepResult) (index : Nat) (steps : List StepSpec) :
    spentMs (missingFrom recorded index steps) = 0 := by
  induction steps generalizing index with
  | nil => rfl
  | cons step rest ih =>
    unfold missingFrom
    split
    · exact ih (index + 1)
    · show 0 + spentMs (missingFrom recorded (index + 1) rest) = 0
      rw [ih]

theorem spentMs_completeSteps (steps : List StepSpec) (recorded : List StepResult) :
    spentMs (completeSteps steps recorded) = spentMs recorded := by
  rw [completeSteps, spentMs_append, spentMs_missingFrom, Nat.add_zero]

namespace Lane

variable {e : Engine} {v v' : Lane}

/-- The steps of a job took no more than the time since the job was taken, and its result says
so. -/
structure Clocked (v : Lane) : Prop where
  sheet : v.flight.Timesheet v.around.now
  results : ∀ t r, (t, .completed r) ∈ v.seen →
    v.flight.takenAt + nanosPerMilli * spentMs r.steps ≤ t

/-- A turn of the worker records nothing. -/
theorem timesheet_workerTurn (e : Engine) {time : Nat} (h : v.flight.Timesheet time) :
    (v.workerTurn e).flight.Timesheet time := by
  by_cases hp : v.post = .away
  · rw [workerTurn_away e hp]
    exact h
  · have htends := v.tends_tend e hp
    rw [(flight_workerTurn e hp).1, put_eq]
    exact h.congr ((takenAt_heard ..).trans htends.takenAt) ((steps_heard ..).trans htends.steps)
      ((body_heard ..).trans htends.body)

theorem timesheet_passes (h : v.flight.Timesheet v.around.now)
    (hidle : v.post = .away → v.call = .idle) (hp : v.Passes e v') :
    v'.flight.Timesheet v'.around.now := by
  refine Flight.Timesheet.later ?_ (hp.now_le hidle)
  cases hp with
  | @own i rest ready =>
    cases i with
    | cue c =>
      have hturn : (e.cueTurn c { v with ready := rest }.desk).flight.Timesheet v.around.now :=
        Engine.timesheet_cueTurn (d := v.desk) h rfl rfl hidle c
      show (Lane.put _ { v with ready := rest }).flight.Timesheet v.around.now
      rw [put_eq]
      exact hturn.congr (takenAt_heard ..) (steps_heard ..) (body_heard ..)
    | worker => exact timesheet_workerTurn e (v := { v with ready := rest }) h
  | other now canceled =>
    rw [moveTo_eq]
    exact h.congr (takenAt_heard ..) (steps_heard ..) (body_heard ..)
  | cut =>
    obtain ⟨call, items, hcut, -⟩ := v.cut_eq
    rw [hcut]
    exact h
  | round ready now later timeout => exact h

/-- **Every move keeps the time that the steps took within the time that has passed.** -/
theorem Clocked.passes (h : v.Clocked) (hidle : v.post = .away → v.call = .idle)
    (hp : v.Passes e v') : v'.Clocked := by
  refine ⟨timesheet_passes h.sheet hidle hp, fun t r hr => ?_⟩
  rw [(hp.same hidle).2.2]
  rcases hp.quiet_or_turn with ⟨-, hseen⟩ | ⟨hne, rest, -, rfl⟩
  · exact h.results t r (hseen t r hr)
  · cases served_workerTurn e (v := { v with ready := rest }) hne with
    | preempts post reason next results => exact h.results t r (results t r hr)
    | concludes reason next results =>
      rcases results t r hr with hr | ⟨rfl, rfl⟩
      · exact h.results t r hr
      · show _ + nanosPerMilli * spentMs (completeSteps _ _) ≤ _
        rw [spentMs_completeSteps]
        exact h.sheet.paced
    | stops post next results => exact h.results t r (results t r hr)

theorem clocked_launched (i : JobInstance) (w : Nat) (s : Surroundings) :
    (launched i w s).Clocked := by
  refine ⟨⟨Nat.le_refl s.now, fun u next hbody => (by cases hbody)⟩, fun t r hr => ?_⟩
  have hlog := List.mem_singleton.1 hr
  cases hlog

end Lane

namespace Floor

variable {e : Engine} {fl m : Floor σ} {jobs : List JobInstance}

/-- **At every moment of a schedule, the steps of its jobs took no more than the time since they
were taken.** -/
theorem Open.clocked_leads (ho : fl.Open e) (hl : e.Leads (e.staff jobs fl) m) {f : Nat}
    {v : Lane}
    (hf : fl.flights.length ≤ f) (hv : m.lane? f = some v) : v.Clocked := by
  refine ho.lanes_leads Lane.clocked_launched (fun f u u' hf hfine hp hu => ?_) hl hf hv
  exact hu.passes (hfine.sound_new hf).idle hp

end Floor

end Conveyor
