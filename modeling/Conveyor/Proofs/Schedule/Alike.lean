import Conveyor.Proofs.Schedule.Chimes
import Conveyor.Proofs.Schedule.Sound

/-!
# Flights at another time

A job may be in flight at another time, with another worker, and beside other jobs. Nothing of
that is on the desk of its flight but the clock, the counters and the cancellation of the run. So
each turn on it does the same, as long as nobody cancels the run, and the job gets the same
result.

- `Engine.Steady`: provisioner and executor do the same at any time.
- `JobResult.undated`: a result without its times; `verdictsAmong`: the results among some notes.
- `Desk.Alike d`, `Lane.Alike d`: the same flight, `d` nanoseconds later.
- `Engine.alike_cueTurn`, `Lane.Alike.tend`: turns on flights that are alike are alike.
- `Lane.Alike.turn`: **a turn in a lane does the same at another time**.
-/

namespace Conveyor

open Activity

/-- What the provisioner and the executor do depends neither on the time nor on numbers that
others may have drawn. It may depend on the job, and on how many scripts were run in the unit
before. -/
structure Engine.Steady (e : Engine) : Prop where
  acquire : ∀ d i, (e.provisioner.acquire i).Alike d (e.provisioner.acquire i)
  release : ∀ d u, (e.provisioner.release u).Alike d (e.provisioner.release u)
  execute : ∀ d u n script env, (e.executor u n script env).Alike d (e.executor u n script env)

/-- The steps of a job do the same at any time. -/
theorem Engine.Steady.runSteps {e : Engine} (h : e.Steady) (d : Nat) (u : ExecutionUnit)
    (env : Bindings) (steps : List StepSpec) :
    ((e.context u).runSteps env steps).Alike d ((e.context u).runSteps env steps) :=
  StepContext.alike_runSteps (e.context u) (h.execute d u) rfl env steps

/-! ## Results without times -/

/-- A result without its times. -/
def JobResult.undated (r : JobResult) : JobResult :=
  { r with
    startedAt := none
    finishedAt := .ofMicros 0 }

/-- The result that a note tells of, without its times. -/
def Note.verdict? : Note → Option JobResult
  | .completed r => some r.undated
  | _ => none

/-- The results of jobs among some notes, without their times. -/
def verdictsAmong (ns : List Note) : List JobResult := ns.filterMap Note.verdict?

theorem verdictsAmong_append (ms ns : List Note) :
    verdictsAmong (ms ++ ns) = verdictsAmong ms ++ verdictsAmong ns := List.filterMap_append

theorem verdictsAmong_completed (r : JobResult) : verdictsAmong [.completed r] = [r.undated] :=
  rfl

theorem verdictsAmong_eq_nil {ns : List Note} (h : ∀ r, .completed r ∉ ns) :
    verdictsAmong ns = [] := by
  refine List.filterMap_eq_nil_iff.2 fun n hn => ?_
  cases n with
  | completed r => exact absurd hn (h r)
  | _ => rfl

theorem mem_verdictsAmong {ns : List Note} {r : JobResult} (h : .completed r ∈ ns) :
    r.undated ∈ verdictsAmong ns := List.mem_filterMap.2 ⟨_, h, rfl⟩

/-! ## Flights and desks -/

/-- Two bodies that have got equally far. -/
inductive Body.Alike (d : Nat) : Body → Body → Prop
  | fresh : Alike d .fresh .fresh
  | acquiring {f g : Bool → Activity Deed ExecutionUnit}
      (next : ∀ cut, (f cut).Alike d (g cut)) : Alike d (.acquiring f) (.acquiring g)
  | stepping (u : ExecutionUnit) {f g : Bool → Activity StepNote Bool}
      (next : ∀ cut, (f cut).Alike d (g cut)) : Alike d (.stepping u f) (.stepping u g)
  | releasing (u : ExecutionUnit) (ending : Ending JobStatus) (hold : Hold) :
      Alike d (.releasing u ending hold) (.releasing u ending hold)
  | ended (ending : Ending JobStatus) : Alike d (.ended ending) (.ended ending)

/-- Two releases that have got equally far. -/
inductive Release.Alike (d : Nat) : Release → Release → Prop
  | none : Alike d .none .none
  | fresh {a b : Activity Deed Unit} (act : a.Alike d b) : Alike d (.fresh a) (.fresh b)
  | waiting {f g : Bool → Activity Deed Unit} (next : ∀ cut, (f cut).Alike d (g cut)) :
      Alike d (.waiting f) (.waiting g)
  | ended (ending : Ending Unit) : Alike d (.ended ending) (.ended ending)

/-- The same flight, the first `d` later than the second; they may have different workers. -/
structure Flight.Alike (d : Nat) (x y : Flight) : Prop where
  job : y.job = x.job
  takenAt : x.takenAt = y.takenAt + d
  state : y.state = x.state
  steps : y.steps = x.steps
  body : x.body.Alike d y.body
  bodyCall : y.bodyCall = x.bodyCall
  release : x.release.Alike d y.release
  releaseCall : y.releaseCall = x.releaseCall
  watch : y.watch = x.watch

/-- The same desk, the first `d` later than the second. -/
structure Desk.Alike (d : Nat) (x y : Desk) : Prop where
  flight : x.flight.Alike d y.flight
  post : y.post = x.post
  call : y.call = x.call
  around : x.around.Alike d y.around
  verdicts : verdictsAmong y.notes = verdictsAmong x.notes
  orders : y.orders = x.orders

namespace Desk.Alike

variable {d : Nat} {x y : Desk}

theorem edit (h : x.Alike d y) {g k : Flight → Flight} (hg : (g x.flight).Alike d (k y.flight)) :
    (x.edit g).Alike d (y.edit k) := { h with flight := hg }

theorem see (h : x.Alike d y) (n : Note) : (x.see n).Alike d (y.see n) := by
  refine { h with verdicts := ?_ }
  show verdictsAmong (y.notes ++ [n]) = verdictsAmong (x.notes ++ [n])
  rw [verdictsAmong_append, verdictsAmong_append, h.verdicts]

theorem log (h : x.Alike d y) (level : LogLevel) (message : Text) :
    (x.log level message).Alike d (y.log level message) := h.see _

theorem order (h : x.Alike d y) (o : Order) : (x.order o).Alike d (y.order o) :=
  { h with orders := congrArg (· ++ [o]) h.orders }

theorem push (h : x.Alike d y) (c : Cue) : (x.push c).Alike d (y.push c) := h.order _

theorem setTimer (h : x.Alike d y) (span : Span) (b : Bell) :
    (x.setTimer span b).Alike d (y.setTimer span b) := h.order _

theorem dropTimer (h : x.Alike d y) (b : Bell) : (x.dropTimer b).Alike d (y.dropTimer b) :=
  h.order _

theorem move (h : x.Alike d y) (target : JobState) :
    (x.move target).Alike d (y.move target) := by
  unfold Desk.move
  rw [h.flight.job, h.flight.state]
  exact (h.see _).edit { h.flight with state := rfl }

theorem callBody (h : x.Alike d y) : x.callBody.Alike d y.callBody := by
  unfold Desk.callBody
  rw [h.flight.bodyCall]
  split
  · exact (h.edit { h.flight with bodyCall := rfl }).push _
  · exact h

theorem cutBody (h : x.Alike d y) : x.cutBody.Alike d y.cutBody := by
  have hcut := (h.edit (g := fun x => { x with bodyCall := .cut })
    (k := fun x => { x with bodyCall := .cut }) { h.flight with bodyCall := rfl }).dropTimer
    .body
  unfold Desk.cutBody
  dsimp only
  rw [h.flight.bodyCall]
  split
  · exact hcut.push _
  · exact hcut

theorem callRelease (h : x.Alike d y) : x.callRelease.Alike d y.callRelease := by
  unfold Desk.callRelease
  rw [h.flight.releaseCall]
  split
  · exact (h.edit { h.flight with releaseCall := rfl }).push _
  · exact h

theorem cutRelease (h : x.Alike d y) : x.cutRelease.Alike d y.cutRelease := by
  have hcut := (h.edit (g := fun x => { x with releaseCall := .cut })
    (k := fun x => { x with releaseCall := .cut }) { h.flight with
        releaseCall := rfl }).dropTimer
      .release
  unfold Desk.cutRelease
  dsimp only
  rw [h.flight.releaseCall]
  split
  · exact hcut.push _
  · exact hcut

theorem callWorker (h : x.Alike d y) (vigil : Vigil) :
    (x.callWorker vigil).Alike d (y.callWorker vigil) := by
  have hcalled : Desk.Alike d { x with call := .called } { y with call := .called } :=
    { h with call := rfl }
  have hsame : y.post.vigil? = some vigil ∧ y.call = .idle ↔
      x.post.vigil? = some vigil ∧ x.call = .idle := by rw [h.post, h.call]
  unfold Desk.callWorker
  split
  · rename_i hc
    rw [if_pos (hsame.2 hc)]
    exact hcalled.order _
  · rename_i hc
    rw [if_neg fun hc' => hc (hsame.1 hc')]
    exact h

/-- What a stretch of activity changes. -/
theorem absorb {ν α : Type} (h : x.Alike d y) {s t : Stretch ν α} (hst : s.Alike d t) :
    (x.absorb s).Alike d (y.absorb t) := by
  refine { h with flight := { h.flight with steps := ?_ }, around := hst.around, verdicts := ?_ }
  · show y.flight.steps ++ recordedAmong t.notes = x.flight.steps ++ recordedAmong s.notes
    rw [h.flight.steps, hst.notes]
  · show verdictsAmong (y.notes ++ t.notes) = verdictsAmong (x.notes ++ s.notes)
    rw [verdictsAmong_append, verdictsAmong_append, h.verdicts, hst.notes]

theorem pauseBody (h : x.Alike d y) {b k : Body} (hb : b.Alike d k) (span : Nat) :
    (x.pauseBody b span).Alike d (y.pauseBody k span) := by
  have hpaused := h.edit (g := fun x => { x with body := b })
      (k := fun x => { x with body := k })
    { h.flight with body := hb }
  unfold Desk.pauseBody
  dsimp only
  split
  · exact hpaused.callBody
  · exact hpaused.setTimer _ _

theorem pauseRelease (h : x.Alike d y) {f g : Bool → Activity Deed Unit}
    (hf : ∀ cut, (f cut).Alike d (g cut)) (span : Nat) :
    (x.pauseRelease f span).Alike d (y.pauseRelease g span) := by
  have hpaused := h.edit (g := fun x => { x with release := .waiting f })
    (k := fun x => { x with release := .waiting g }) { h.flight with release := .waiting hf }
  unfold Desk.pauseRelease
  dsimp only
  split
  · exact hpaused.callRelease
  · exact hpaused.setTimer _ _

theorem endBody (h : x.Alike d y) (ending : Ending JobStatus) :
    (x.endBody ending).Alike d (y.endBody ending) := by
  have hended := h.edit (g := fun x => { x with body := .ended ending })
    (k := fun x => { x with body := .ended ending }) { h.flight with body := .ended ending }
  unfold Desk.endBody
  dsimp only
  rw [h.post]
  split
  · exact hended.push _
  · exact hended

theorem endRelease (h : x.Alike d y) (ending : Ending Unit) :
    (x.endRelease ending).Alike d (y.endRelease ending) := by
  have hended : ∀ {x y : Desk}, x.Alike d y →
      ((x.edit fun x => { x with release := .ended ending }).push .releaseOver).Alike d
        ((y.edit fun x => { x with release := .ended ending }).push .releaseOver) :=
    fun h => (h.edit { h.flight with release := .ended ending }).push _
  cases ending with
  | done result => exact hended (h.see .released)
  | failed fault => exact hended h
  | interrupted => exact hended h

/-- What a turn of a release leads to. -/
theorem afterRelease (h : x.Alike d y) {s t : Stretch Deed Unit} (hst : s.Alike d t) :
    (x.afterRelease s).Alike d (y.afterRelease t) := by
  have habsorbed := h.absorb hst
  have hrest := hst.rest
  unfold Desk.afterRelease
  revert hrest
  generalize s.rest = r, t.rest = q
  intro hrest
  cases hrest with
  | ended ending => exact habsorbed.endRelease ending
  | waiting span next => exact habsorbed.pauseRelease next span

end Desk.Alike

/-! ## Turns on flights -/

/-- The surroundings after a turn of a release are those that its stretch leaves. -/
theorem Desk.around_afterRelease (s : Stretch Deed Unit) (x : Desk) :
    (x.afterRelease s).around = s.around := by
  unfold Desk.afterRelease
  split
  · unfold Desk.endRelease
    dsimp only
    split <;> rfl
  · unfold Desk.pauseRelease Desk.callRelease
    dsimp only
    split
    · split <;> rfl
    · rfl

namespace Desk.Alike

variable {d : Nat} {x y : Desk}

theorem releaseTurn (h : x.Alike d y) (hrun : x.releaseTurn.around.canceled = false) :
    x.releaseTurn.Alike d y.releaseTurn := by
  have hidle := h.edit (g := fun x => { x with releaseCall := .idle })
    (k := fun x => { x with releaseCall := .idle }) { h.flight with releaseCall := rfl }
  have hrelease := h.flight.release
  unfold Desk.releaseTurn at hrun ⊢
  dsimp only at hrun ⊢
  rw [h.flight.releaseCall]
  -- The two releases are at the same place, so one case split serves both desks.
  revert hrelease hrun
  generalize x.flight.release = r, y.flight.release = q
  intro hrun hrelease
  cases hrelease with
  | none => exact hidle
  | fresh act =>
    dsimp only at hrun ⊢
    split
    · exact hidle.endRelease _
    · rename_i hcut
      rw [if_neg hcut, Desk.around_afterRelease] at hrun
      exact (hidle.see _).afterRelease (act.proceed h.around hrun)
  | waiting next =>
    dsimp only at hrun
    rw [Desk.around_afterRelease] at hrun
    exact hidle.afterRelease ((next _).proceed h.around hrun)
  | ended ending => exact hidle

theorem watchTurn (h : x.Alike d y) : x.watchTurn.Alike d y.watchTurn := by
  have hended : x.endWatch.Alike d y.endWatch := by
    unfold Desk.endWatch
    exact (h.edit { h.flight with watch := rfl }).push _
  unfold Desk.watchTurn
  rw [h.flight.watch, h.around.running, h.around.running']
  split
  · rw [if_neg Bool.false_ne_true, if_neg Bool.false_ne_true]
    exact h.edit { h.flight with watch := rfl }
  · exact hended
  · exact h

theorem releaseOverTurn (h : x.Alike d y) : x.releaseOverTurn.Alike d y.releaseOverTurn := by
  have hbody := h.flight.body
  unfold Desk.releaseOverTurn
  revert hbody
  generalize x.flight.body = b, y.flight.body = k
  intro hbody
  cases hbody with
  | releasing u ending hold => exact h.callBody
  | fresh => exact h
  | acquiring next => exact h
  | stepping u next => exact h
  | ended ending => exact h

theorem graceTurn (h : x.Alike d y) : x.graceTurn.Alike d y.graceTurn := by
  have hbody := h.flight.body
  unfold Desk.graceTurn
  revert hbody
  generalize x.flight.body = b, y.flight.body = k
  intro hbody
  cases hbody with
  | releasing u ending hold =>
    cases hold with
    | inTime => exact h.callBody
    | cutting passOn => exact h
  | fresh => exact h
  | acquiring next => exact h
  | stepping u next => exact h
  | ended ending => exact h

end Desk.Alike

namespace Engine

open Desk

variable {e : Engine} {d : Nat} {x y : Desk}

/-! ### The body -/

theorem alike_beginRelease (he : e.Steady) (h : x.Alike d y) (u : ExecutionUnit)
    (ending : Ending JobStatus) :
    (e.beginRelease u ending x).Alike d (e.beginRelease u ending y) := by
  have hact : Release.Alike d (.fresh (e.provisioner.release u))
      (.fresh (e.provisioner.release u)) :=
    .fresh (he.release d u)
  unfold beginRelease
  dsimp only
  split
  · exact (h.edit
      { h.flight with body := .releasing _ _ _, release := hact, releaseCall := rfl }).push _
  · exact ((h.edit
      { h.flight with body := .releasing _ _ _, release := hact, releaseCall := rfl }).setTimer
        _ _).push _

theorem alike_afterSteps (he : e.Steady) (h : x.Alike d y) (u : ExecutionUnit)
    {s t : Stretch StepNote Bool} (hst : s.Alike d t) :
    (e.afterSteps u s x).Alike d (e.afterSteps u t y) := by
  have habsorbed := h.absorb hst
  have hrest := hst.rest
  unfold afterSteps
  revert hrest
  generalize s.rest = r, t.rest = q
  intro hrest
  cases hrest with
  | ended ending => exact alike_beginRelease he habsorbed u _
  | waiting span next => exact habsorbed.pauseBody (.stepping u next) span

theorem around_pauseBody (b : Body) (span : Nat) (x : Desk) :
    (x.pauseBody b span).around = x.around := by
  unfold pauseBody callBody
  dsimp only
  split
  · split <;> rfl
  · rfl

theorem around_afterSteps (e : Engine) (u : ExecutionUnit) (s : Stretch StepNote Bool)
    (x : Desk) :
    (e.afterSteps u s x).around = s.around := by
  unfold afterSteps
  split
  · unfold beginRelease
    dsimp only
    split <;> rfl
  · rw [around_pauseBody]
    rfl

theorem alike_beginSteps (he : e.Steady) (h : x.Alike d y) (u : ExecutionUnit)
    (hrun : (e.beginSteps u x).around.canceled = false) :
    (e.beginSteps u x).Alike d (e.beginSteps u y) := by
  unfold beginSteps at hrun ⊢
  dsimp only at hrun ⊢
  rw [around_afterSteps] at hrun
  rw [h.flight.job]
  have hsteps := he.runSteps d u x.flight.job.env x.flight.job.steps
  exact alike_afterSteps he ((h.see _).move _) u (hsteps.proceed h.around hrun)

theorem alike_refuse (h : x.Alike d y) (fault : Fault) :
    (refuse fault x).Alike d (refuse fault y) := by
  unfold refuse
  dsimp only
  rw [h.flight.job]
  refine (((h.log _ _).see _).edit { h.flight with steps := ?_ }).endBody _
  show y.flight.steps ++ _ = x.flight.steps ++ _
  rw [h.flight.steps]

/-- If the run is not canceled after a stretch and the turn that it leads to, it was not after
the stretch. -/
theorem running_of_afterAcquire (s : Stretch Deed ExecutionUnit)
    (hrun : (e.afterAcquire s x).around.canceled = false) : s.around.canceled = false := by
  unfold afterAcquire at hrun
  split at hrun
  · unfold beginSteps at hrun
    rw [around_afterSteps] at hrun
    cases hc : s.around.canceled with
    | false => rfl
    | true =>
      have hcanceled : (x.absorb s).around.canceled = true := hc
      rw [proceed_canceled _ _ hcanceled] at hrun
      cases hrun
  · rw [refuse, endBody_eq] at hrun
    exact hrun
  · rw [endBody_eq] at hrun
    exact hrun
  · rw [around_pauseBody] at hrun
    exact hrun

theorem alike_afterAcquire (he : e.Steady) (h : x.Alike d y) {s t : Stretch Deed ExecutionUnit}
    (hst : s.Alike d t) (hrun : (e.afterAcquire s x).around.canceled = false) :
    (e.afterAcquire s x).Alike d (e.afterAcquire t y) := by
  have habsorbed := h.absorb hst
  have hrest := hst.rest
  unfold afterAcquire at hrun ⊢
  revert hrest hrun
  generalize s.rest = r, t.rest = q
  intro hrun hrest
  cases hrest with
  | ended ending =>
    cases ending with
    | done u => exact alike_beginSteps he habsorbed u hrun
    | failed fault => exact alike_refuse habsorbed fault
    | interrupted => exact habsorbed.endBody _
  | waiting span next => exact habsorbed.pauseBody (.acquiring next) span

theorem alike_afterGrace (h : x.Alike d y) (u : ExecutionUnit) (ending : Ending JobStatus)
    (cut : Bool) :
    (afterGrace u ending cut x).Alike d (afterGrace u ending cut y) := by
  have hdropped := h.dropTimer .grace
  have hcut : ((x.dropTimer .grace).edit fun f =>
      { f with body := .releasing u ending (.cutting cut) }).cutRelease.Alike d
      ((y.dropTimer .grace).edit fun f =>
        { f with body := .releasing u ending (.cutting cut) }).cutRelease :=
    (hdropped.edit { h.flight with body := .releasing _ _ _ }).cutRelease
  have hrelease := h.flight.release
  unfold afterGrace
  revert hrelease
  generalize x.flight.release = r, y.flight.release = q
  intro hrelease
  cases hrelease with
  | none => exact hcut
  | fresh act => exact hcut
  | waiting next => exact hcut
  | ended ending =>
    cases ending with
    | done result => exact hdropped.endBody _
    | failed fault => exact (hdropped.log _ _).endBody _
    | interrupted => exact hdropped.endBody _

theorem alike_afterCut (e : Engine) (h : x.Alike d y) (u : ExecutionUnit)
    (ending : Ending JobStatus)
    (cut : Bool) : (e.afterCut u ending cut x).Alike d (e.afterCut u ending cut y) := by
  have hrelease := h.flight.release
  unfold afterCut
  split
  · exact h.endBody _
  · revert hrelease
    generalize x.flight.release = r, y.flight.release = q
    intro hrelease
    cases hrelease with
    | none => exact h
    | fresh act => exact h
    | waiting next => exact h
    | ended ending =>
      cases ending with
      | done result => exact h.endBody _
      | failed fault => exact (h.log _ _).endBody _
      | interrupted => exact (h.log _ _).endBody _

theorem alike_bodyTurn (he : e.Steady) (h : x.Alike d y)
    (hrun : (e.bodyTurn x).around.canceled = false) : (e.bodyTurn x).Alike d (e.bodyTurn y) := by
  have hidle := h.edit (g := fun x => { x with bodyCall := .idle })
    (k := fun x => { x with bodyCall := .idle }) { h.flight with bodyCall := rfl }
  have hbody := h.flight.body
  unfold bodyTurn at hrun ⊢
  dsimp only at hrun ⊢
  rw [h.flight.bodyCall, h.flight.job]
  revert hbody hrun
  generalize x.flight.body = b, y.flight.body = k
  intro hrun hbody
  cases hbody with
  | fresh =>
    dsimp only at hrun ⊢
    split
    · exact hidle.endBody _
    · rename_i hcut
      rw [if_neg hcut] at hrun
      exact alike_afterAcquire he (hidle.move _)
        ((he.acquire d _).proceed h.around (running_of_afterAcquire _ hrun)) hrun
  | acquiring next =>
    exact alike_afterAcquire he hidle
      ((next _).proceed h.around (running_of_afterAcquire _ hrun)) hrun
  | stepping u next =>
    dsimp only at hrun
    rw [around_afterSteps] at hrun
    exact alike_afterSteps he hidle u ((next _).proceed h.around hrun)
  -- Waiting for its release cannot cancel the run, so nothing is asked of it here.
  | releasing u ending hold =>
    cases hold with
    | inTime => exact alike_afterGrace hidle u ending _
    | cutting passOn => exact alike_afterCut e hidle u ending _
  | ended ending => exact hidle

/-- **A turn on a flight does the same at another time**, unless it cancels the run. -/
theorem alike_cueTurn (he : e.Steady) (h : x.Alike d y) (c : Cue)
    (hrun : (e.cueTurn c x).around.canceled = false) :
    (e.cueTurn c x).Alike d (e.cueTurn c y) := by
  cases c with
  | body => exact alike_bodyTurn he h hrun
  | release => exact h.releaseTurn hrun
  | watch => exact h.watchTurn
  | bodyOver vigil => exact h.callWorker vigil
  | watchOver => exact h.callWorker .watching
  | releaseOver => exact h.releaseOverTurn
  | bell b =>
    cases b with
    | body => exact h.callBody
    | release => exact h.callRelease
    | grace => exact h.graceTurn
    | timeout => exact h.callWorker .watching
    | patience => exact h.callWorker .preempting

/-! ### The worker -/

theorem undated_resultAt (e : Engine) (i : JobInstance) (start start' : Option Nat)
    (time time' : Nat)
    (status : JobStatus) (recorded : List StepResult) :
    (e.resultAt i start time status recorded).undated =
      (e.resultAt i start' time' status recorded).undated := rfl

theorem alike_conclude (e : Engine) (h : x.Alike d y) (status : JobStatus) :
    (e.conclude status x).Alike d (e.conclude status y) := by
  have hmoved := h.move (.ended status)
  refine { hmoved with verdicts := ?_ }
  show verdictsAmong ((y.move _).notes ++ [_]) = verdictsAmong ((x.move _).notes ++ [_])
  rw [verdictsAmong_append, verdictsAmong_append, hmoved.verdicts, resultOf, resultOf,
      h.flight.job,
    h.flight.steps, verdictsAmong_completed, verdictsAmong_completed,
    e.undated_resultAt _ (some y.flight.takenAt) (some x.flight.takenAt) _ x.around.now]

theorem alike_preempt (e : Engine) (h : x.Alike d y) (cause : Cause) :
    (e.preempt cause x).Alike d (e.preempt cause y) := by
  have hpost : Desk.Alike d { x with post := .preempting cause }
      { y with post := .preempting cause } :=
    { h with post := rfl }
  have hbody := h.flight.body
  unfold preempt
  dsimp only
  revert hbody
  generalize x.flight.body = b, y.flight.body = k
  intro hbody
  cases hbody with
  | ended ending => exact (hpost.setTimer _ _).push _
  | fresh => exact hpost.cutBody.setTimer _ _
  | acquiring next => exact hpost.cutBody.setTimer _ _
  | stepping u next => exact hpost.cutBody.setTimer _ _
  | releasing u ending hold => exact hpost.cutBody.setTimer _ _

/-- Two turns of a worker after which it goes on in the same way. -/
def AlikeWith (d : Nat) (r q : Desk × Sequel) : Prop := r.1.Alike d q.1 ∧ q.2 = r.2

theorem alike_afterWatching (e : Engine) (h : x.Alike d y) (cut : Bool) :
    AlikeWith d (e.afterWatching cut x) (e.afterWatching cut y) := by
  have hleft := (h.edit (g := fun x => { x with watch := .dismissed })
    (k := fun x => { x with watch := .dismissed }) { h.flight with watch := rfl }).dropTimer
    .timeout
  have hbody := h.flight.body
  -- Only the watch can say why a body is given up that is not over.
  have hlate : AlikeWith d
      (if x.flight.watch = .ended then
        (e.preempt .canceled (((x.edit fun x => { x with watch := .dismissed }).dropTimer
          .timeout).log .warning (cancelMessage x.flight.job)), Sequel.stay)
      else
        (e.preempt .timedOut (((x.edit fun x => { x with watch := .dismissed }).dropTimer
          .timeout).log .warning (timeoutMessage x.flight.job)), .stay))
      (if x.flight.watch = .ended then
        (e.preempt .canceled (((y.edit fun x => { x with watch := .dismissed }).dropTimer
          .timeout).log .warning (cancelMessage x.flight.job)), Sequel.stay)
      else
        (e.preempt .timedOut (((y.edit fun x => { x with watch := .dismissed }).dropTimer
          .timeout).log .warning (timeoutMessage x.flight.job)), .stay)) := by
    split
    · exact ⟨alike_preempt e (hleft.log _ _) _, rfl⟩
    · exact ⟨alike_preempt e (hleft.log _ _) _, rfl⟩
  unfold afterWatching
  dsimp only
  split
  · exact ⟨alike_preempt e hleft _, rfl⟩
  · rw [h.flight.watch, h.flight.job]
    revert hbody
    generalize x.flight.body = b, y.flight.body = k
    intro hbody
    cases hbody with
    | ended ending =>
      cases ending with
      | done status => exact ⟨alike_conclude e hleft status, rfl⟩
      | failed fault =>
        dsimp only
        split
        · exact ⟨alike_preempt e (hleft.log _ _) _, rfl⟩
        · exact ⟨alike_preempt e (hleft.log _ _) _, rfl⟩
      | interrupted => exact ⟨alike_preempt e hleft _, rfl⟩
    | fresh => exact hlate
    | acquiring next => exact hlate
    | stepping u next => exact hlate
    | releasing u ending hold => exact hlate

theorem alike_afterPreempting (e : Engine) (h : x.Alike d y) (cause : Cause) (cut : Bool) :
    AlikeWith d (e.afterPreempting cause cut x) (e.afterPreempting cause cut y) := by
  have hdropped := h.dropTimer .patience
  -- What is said of the preemption depends on how far the body is, not on when.
  have hmessage : preemptionMessage y.flight.body = preemptionMessage x.flight.body := by
    have hbody := h.flight.body
    revert hbody
    generalize x.flight.body = b, y.flight.body = k
    intro hbody
    cases hbody <;> rfl
  unfold afterPreempting
  dsimp only
  split
  · exact ⟨hdropped, rfl⟩
  · rw [hmessage]
    cases preemptionMessage x.flight.body with
    | some message =>
      have htold := hdropped.log .error message
      cases cause.status? with
      | some status => exact ⟨alike_conclude e htold status, rfl⟩
      | none => exact ⟨htold, rfl⟩
    | none =>
      cases cause.status? with
      | some status => exact ⟨alike_conclude e hdropped status, rfl⟩
      | none => exact ⟨hdropped, rfl⟩

end Engine

/-! ## Lanes -/

/-- The same lane, `d` nanoseconds later. -/
structure Lane.Alike (d : Nat) (v u : Lane) : Prop where
  flight : v.flight.Alike d u.flight
  post : u.post = v.post
  call : u.call = v.call
  around : v.around.Alike d u.around
  ready : u.ready = v.ready
  later : u.later = v.later
  verdicts : verdictsAmong u.notes = verdictsAmong v.notes

namespace Lane

variable {e : Engine} {d : Nat} {v u : Lane}

/-- Nobody hears of a cancellation as long as the run is not canceled. -/
theorem put_running {x : Desk} (hrun : x.around.canceled = false) (v : Lane) :
    v.put x =
      { v with
        flight := x.flight
        post := x.post
        call := x.call
        around := x.around
        later := v.later ++ x.orders.filterMap Order.item?
        seen := v.seen ++ x.notes.map fun n => (v.around.now, n) } := by
  rw [put_eq, hrun]
  simp [heard, hearing, Hears]

theorem Alike.desk (h : v.Alike d u) : v.desk.Alike d u.desk :=
  ⟨h.flight, h.post, h.call, h.around, rfl, rfl⟩

theorem Alike.idled (h : v.Alike d u) : v.idled.Alike d u.idled := { h with call := rfl }

theorem Alike.put (h : v.Alike d u) {x y : Desk} (hxy : x.Alike d y) :
    (v.put x).Alike d (u.put y) := by
  have hverdicts : verdictsAmong (u.put y).notes = verdictsAmong (v.put x).notes := by
    rw [notes_put, notes_put, verdictsAmong_append, verdictsAmong_append, h.verdicts,
      hxy.verdicts]
  rw [put_running hxy.around.running, put_running hxy.around.running'] at hverdicts ⊢
  refine ⟨hxy.flight, hxy.post, hxy.call, hxy.around, h.ready, ?_, hverdicts⟩
  rw [h.later, hxy.orders]

theorem Alike.after (h : v.Alike d u) {r q : Desk × Sequel} (hrq : Engine.AlikeWith d r q) :
    (v.after r).Alike d (u.after q) := by
  have hput := h.put hrq.1
  unfold Lane.after
  rw [hrq.2]
  split
  · exact hput
  · refine { hput with post := rfl, call := rfl, ready := ?_, later := ?_ }
    · exact congrArg (List.filter _) hput.ready
    · exact congrArg (List.filter _) hput.later

/-- **A worker does the same about a job at another time.** -/
theorem Alike.tend (e : Engine) (h : v.Alike d u) :
    Engine.AlikeWith d (v.tend e) (u.tend e) := by
  have hdesk := h.idled.desk
  unfold Lane.tend
  dsimp only
  rw [h.post, h.call]
  split
  · exact ⟨hdesk, rfl⟩
  · exact e.alike_afterWatching hdesk _
  · exact e.alike_afterPreempting hdesk _ _

/-- The surroundings after a turn. -/
theorem around_deskAfter (e : Engine) (v : Lane) (i : Item) :
    (v.deskAfter e i).around = (v.turn e i).around := by
  cases i with
  | cue c =>
    show _ = (v.put (e.cueTurn c v.desk)).around
    rw [put_eq]
    rfl
  | worker =>
    show (v.tend e).1.around = (v.workerTurn e).around
    rw [around_workerTurn]
    by_cases hp : v.post = .away
    · unfold Lane.tend
      rw [hp]
      rfl
    · exact (v.tends_tend e hp).around

theorem Alike.deskAfter (he : e.Steady) (h : v.Alike d u) (i : Item)
    (hrun : (v.turn e i).around.canceled = false) :
    (v.deskAfter e i).Alike d (u.deskAfter e i) := by
  cases i with
  | cue c => exact Engine.alike_cueTurn he h.desk c (by rwa [← around_deskAfter] at hrun)
  | worker => exact (h.tend e).1

/-- **A turn in a lane does the same at another time**, unless it cancels the run. -/
theorem Alike.turn (he : e.Steady) (h : v.Alike d u) (i : Item)
    (hrun : (v.turn e i).around.canceled = false) : (v.turn e i).Alike d (u.turn e i) := by
  cases i with
  | cue c => exact h.put (h.deskAfter he (.cue c) hrun)
  | worker =>
    show (v.workerTurn e).Alike d (u.workerTurn e)
    by_cases hp : v.post = .away
    · rw [workerTurn_away e hp, workerTurn_away e (h.post.trans hp)]
      exact h.idled
    · rw [workerTurn_eq e hp, workerTurn_eq e (h.post ▸ hp)]
      exact h.idled.after (h.tend e)

/-- The next round is the same at another time. -/
theorem Alike.tick (h : v.Alike d u) (time : Nat) (bells : List Bell) :
    (v.tick (time + d) bells).Alike d (u.tick time bells) := by
  refine
    { h with
      around := ⟨rfl, h.around.running, h.around.running'⟩
      ready := ?_
      later := rfl }
  exact congrArg (· ++ bells.map fun b => Item.cue (.bell b)) h.later

end Lane

end Conveyor
