import Conveyor.Proofs.Activity.Upholds
import Conveyor.Schedule.Worker

/-!
# Turns on a flight

What the turns on a flight can do, said once. Body and release leave the job, the watch and the
worker alone, they tell the worker when the body is over, and a body that is over stays as it is.
The worker leaves the job and its body alone, but for interrupting it.

- `Body.isOver`: the body is over.
- `Order.ofBody`: what body and release may ask of the floor.
- `Desk.Cued`: what a message does at a desk; `Engine.cued_cueTurn` says that there is nothing
  else.
- `Desk.Works e d d'`: `d'` is what turns of body and release make of `d`.
- `Engine.works_bodyTurn`, `Desk.works_releaseTurn`, …: **the turns of both are such**.
- `Desk.Tends e d d'`: `d'` is what a turn of the worker makes of `d`.
- `Engine.tends_afterWatching`, `Engine.tends_afterPreempting`: **the turns of a worker are
  such**.
- `Desk.Fits d d'`: `d'` can be put back where `d` was taken; every turn leaves a desk that can.
-/

namespace Conveyor

/-- Is the body over? -/
def Body.isOver : Body → Bool
  | .ended _ => true
  | _ => false

/-- Is the limit a number, or endless? -/
def Span.isDefined : Span → Bool
  | .undefined => false
  | _ => true

/-- What body and release may ask of the floor; `post` is what the worker does meanwhile. -/
def Order.ofBody (e : Engine) (post : Post) : Order → Bool
  | .cue .body | .cue .release | .cue .releaseOver => true
  | .cue (.bodyOver vigil) => post.vigil? = some vigil
  | .set span .body | .set span .release => span.isDefined
  | .set span .grace => span = e.grace
  | .drop .body | .drop .release | .drop .grace => true
  | _ => false

namespace Desk

/-- A body that is over tells the worker, if that waits in any way. -/
theorem endBody_eq (ending : Ending JobStatus) (d : Desk) :
    d.endBody ending =
      { d with
        flight := { d.flight with body := .ended ending }
        orders := d.orders ++ d.post.vigil?.toList.map fun vigil =>
            .cue (.bodyOver vigil) } := by
  unfold endBody
  split
  · rename_i vigil hv
    rw [hv]
    rfl
  · rename_i hv
    simp [hv, edit]

/-- What turns of body and release make of a desk. -/
structure Works (e : Engine) (d d' : Desk) : Prop where
  job : d'.flight.job = d.flight.job
  worker : d'.flight.worker = d.flight.worker
  takenAt : d'.flight.takenAt = d.flight.takenAt
  watch : d'.flight.watch = d.flight.watch
  post : d'.post = d.post
  call : d'.call = d.call
  now : d'.around.now = d.around.now
  /-- The run is canceled iff it was before, or that is to be seen. -/
  canceled : d'.around.canceled = canceledAfter d.around.canceled d'.notes
  /-- The job gets no result. -/
  results : ∀ r, .completed r ∉ d'.notes
  orders : ∀ o ∈ d'.orders, o.ofBody e d.post = true
  /-- A body that is over stays as it is. -/
  stays : d.flight.body.isOver = true → d'.flight.body = d.flight.body
  /-- The worker is told only of a body that is over. -/
  bodyOver : ∀ vigil, .cue (.bodyOver vigil) ∈ d'.orders → d'.flight.body.isOver = true
  /-- A worker that waits is told when the body is over. -/
  told : d.flight.body.isOver = false → d'.flight.body.isOver = true →
    ∀ vigil, d.post.vigil? = some vigil → .cue (.bodyOver vigil) ∈ d'.orders

namespace Works

variable {e : Engine} {d d' : Desk}

/-- A turn that does nothing. -/
theorem refl (hn : d.notes = []) (ho : d.orders = []) : Works e d d := by
  refine ⟨rfl, rfl, rfl, rfl, rfl, rfl, rfl, ?_, ?_, ?_, fun _ => rfl, ?_, ?_⟩
  · rw [hn, canceledAfter_nil]
  · simp [hn]
  · simp [ho]
  · simp [ho]
  · intro h h'
    rw [h] at h'
    exact absurd h' Bool.false_ne_true

/-- Change what neither the worker nor the watch looks at. -/
theorem edit (h : Works e d d') {g : Flight → Flight}
    (hg : ∀ x, (g x).job = x.job ∧ (g x).worker = x.worker ∧ (g x).takenAt = x.takenAt ∧
      (g x).watch = x.watch ∧ (g x).body = x.body) : Works e d (d'.edit g) := by
  obtain ⟨hjob, hworker, htaken, hwatch, hbody⟩ := hg d'.flight
  refine ⟨hjob.trans h.job, hworker.trans h.worker, htaken.trans h.takenAt, hwatch.trans h.watch,
    h.post, h.call, h.now, h.canceled, h.results, h.orders, fun ho =>
      hbody.trans (h.stays ho), ?_, ?_⟩
  · intro vigil hv
    show (g d'.flight).body.isOver = true
    rw [hbody]
    exact h.bodyOver vigil hv
  · intro hd hd'
    have hd'' : (g d'.flight).body.isOver = true := hd'
    rw [hbody] at hd''
    exact h.told hd hd''

/-- The body, which is not over, goes on waiting. -/
theorem setBody (h : Works e d d') (hd : d.flight.body.isOver = false)
    (hd' : d'.flight.body.isOver = false) {g : Flight → Flight}
    (hg : ∀ x, (g x).job = x.job ∧ (g x).worker = x.worker ∧ (g x).takenAt = x.takenAt ∧
      (g x).watch = x.watch ∧ (g x).body.isOver = false) : Works e d (d'.edit g) := by
  obtain ⟨hjob, hworker, htaken, hwatch, hbody⟩ := hg d'.flight
  refine ⟨hjob.trans h.job, hworker.trans h.worker, htaken.trans h.takenAt, hwatch.trans h.watch,
    h.post, h.call, h.now, h.canceled, h.results, h.orders, ?_, ?_, ?_⟩
  · intro ho
    rw [hd] at ho
    exact absurd ho Bool.false_ne_true
  · intro vigil hv
    have ho := h.bodyOver vigil hv
    rw [hd'] at ho
    exact absurd ho Bool.false_ne_true
  · intro _ ho
    have ho' : (g d'.flight).body.isOver = true := ho
    rw [hbody] at ho'
    exact absurd ho' Bool.false_ne_true

/-- Let something be seen that is neither a cancellation nor a result. -/
theorem see (h : Works e d d') {n : Note} (hn : n.isVerdict = false) : Works e d (d'.see n) := by
  have hne : Note.canceled ≠ n := by
    rintro rfl
    cases hn
  refine { h with canceled := ?_, results := fun r hr => ?_ }
  · show d'.around.canceled = canceledAfter d.around.canceled (d'.notes ++ [n])
    rw [canceledAfter_append, ← h.canceled]
    simp [canceledAfter, hne]
  · rcases List.mem_append.1 hr with hr | hr
    · exact h.results r hr
    · rw [← List.mem_singleton.1 hr] at hn
      cases hn

/-- Ask for something that does not concern the worker. -/
theorem order (h : Works e d d') {o : Order} (ho : ∀ post, o.ofBody e post = true) :
    Works e d (d'.order o) := by
  have hnot : ∀ vigil, o ≠ .cue (.bodyOver vigil) := by
    rintro vigil rfl
    have hw := ho .away
    simp [Order.ofBody, Post.vigil?] at hw
  refine { h with orders := ?_, bodyOver := ?_, told := ?_ }
  · intro o' ho'
    rcases List.mem_append.1 ho' with ho' | ho'
    · exact h.orders o' ho'
    · rw [List.mem_singleton.1 ho']
      exact ho d.post
  · intro vigil hv
    rcases List.mem_append.1 hv with hv | hv
    · exact h.bodyOver vigil hv
    · exact absurd (List.mem_singleton.1 hv).symm (hnot vigil)
  · intro hd hd' vigil hv
    exact List.mem_append_left _ (h.told hd hd' vigil hv)

theorem push (h : Works e d d') {c : Cue} (hc : ∀ post, (Order.cue c).ofBody e post = true) :
    Works e d (d'.push c) := h.order hc

theorem setTimer (h : Works e d d') {span : Span} {b : Bell}
    (hb : ∀ post, (Order.set span b).ofBody e post = true) : Works e d (d'.setTimer span b) :=
        h.order hb

theorem dropTimer (h : Works e d d') {b : Bell} (hb : ∀ post, (Order.drop b).ofBody e post =
    true) :
    Works e d (d'.dropTimer b) := h.order hb

theorem log (h : Works e d d') (level : LogLevel) (message : Text) :
    Works e d (d'.log level message) := h.see rfl

theorem move (h : Works e d d') (target : JobState) : Works e d (d'.move target) :=
  (h.see rfl).edit fun _ => by simp

theorem callBody (h : Works e d d') : Works e d d'.callBody := by
  unfold Desk.callBody
  split
  · exact (h.edit fun _ => by simp).push fun _ => by rfl
  · exact h

theorem callRelease (h : Works e d d') : Works e d d'.callRelease := by
  unfold Desk.callRelease
  split
  · exact (h.edit fun _ => by simp).push fun _ => by rfl
  · exact h

theorem cutRelease (h : Works e d d') : Works e d d'.cutRelease := by
  have hcut := (h.edit (g := fun x => { x with releaseCall := .cut })
    fun _ => by simp).dropTimer (b := .release) fun _ => by rfl
  unfold Desk.cutRelease
  split
  · exact hcut.push fun _ => by rfl
  · exact hcut

/-- What is seen of a stretch of activity is all that the floor learns of it. -/
theorem absorb {ν α : Type} [NoteKind ν] (h : Works e d d') {a : Activity ν α} {s : Surroundings}
    (hs : d'.around = s) : Works e d (d'.absorb (a.proceed s)) := by
  subst hs
  refine { h with now := ?_, canceled := ?_, results := fun r hr => ?_ }
  · exact (a.proceed_now d'.around).trans h.now
  · show (a.proceed d'.around).around.canceled =
      canceledAfter d.around.canceled (d'.notes ++ (a.proceed d'.around).notes)
    rw [canceledAfter_append, ← h.canceled]
    exact a.proceed_canceled_eq d'.around
  · rcases List.mem_append.1 hr with hr | hr
    · exact h.results r hr
    · exact a.completed_not_mem_proceed d'.around r hr

/-- The body comes to its end. -/
theorem endBody (h : Works e d d') (hd : d.flight.body.isOver = false)
    (ending : Ending JobStatus) :
    Works e d (d'.endBody ending) := by
  rw [endBody_eq]
  refine { h with orders := ?_, stays := ?_, bodyOver := fun _ _ => rfl, told := ?_ }
  · intro o ho
    rcases List.mem_append.1 ho with ho | ho
    · exact h.orders o ho
    · obtain ⟨vigil, hv, rfl⟩ := List.mem_map.1 ho
      rw [Option.mem_toList, h.post] at hv
      exact decide_eq_true hv
  · intro hover
    rw [hd] at hover
    exact absurd hover Bool.false_ne_true
  · intro _ _ vigil hv
    refine List.mem_append_right _ (List.mem_map.2 ⟨vigil, ?_, rfl⟩)
    rw [Option.mem_toList, h.post]
    exact hv

/-- The body waits. -/
theorem pauseBody (h : Works e d d') (hd : d.flight.body.isOver = false)
    (hd' : d'.flight.body.isOver = false) {state : Body} (hs : state.isOver = false)
    (span : Nat) :
    Works e d (d'.pauseBody state span) := by
  have hset := h.setBody hd hd' (g := fun x => { x with body := state })
    fun _ => by simp [hs]
  unfold Desk.pauseBody
  split
  · exact hset.callBody
  · exact hset.setTimer fun _ => by rfl

end Works

/-! ## The release -/

theorem Works.pauseRelease {e : Engine} {d d' : Desk} (h : Works e d d') (next : Bool →
    Activity Deed Unit)
    (span : Nat) : Works e d (d'.pauseRelease next span) := by
  have hset := h.edit (g := fun x => { x with release := .waiting next })
    fun _ => by simp
  unfold Desk.pauseRelease
  split
  · exact hset.callRelease
  · exact hset.setTimer fun _ => by rfl

theorem Works.endRelease {e : Engine} {d d' : Desk} (h : Works e d d') (ending : Ending Unit) :
    Works e d (d'.endRelease ending) := by
  have htold : ∀ d'' : Desk, Works e d d'' →
      Works e d ((d''.edit fun x => { x with release := .ended ending }).push .releaseOver) :=
    fun d'' h'' => (h''.edit fun _ => by simp).push fun _ => by rfl
  unfold Desk.endRelease
  split
  · exact htold _ (h.see rfl)
  · exact htold _ h

theorem Works.afterRelease {e : Engine} {d d' : Desk} (h : Works e d d')
    (a : Activity Deed Unit) :
    Works e d (d'.afterRelease (a.proceed d'.around)) := by
  unfold Desk.afterRelease
  split
  · exact (h.absorb rfl).endRelease _
  · exact (h.absorb rfl).pauseRelease _ _

/-- A turn of the release is a turn of body and release. -/
theorem works_releaseTurn {e : Engine} {d : Desk} (hn : d.notes = []) (ho : d.orders = []) :
    Works e d d.releaseTurn := by
  have hidle : Works e d (d.edit fun x => { x with releaseCall := .idle }) :=
    (Works.refl hn ho).edit fun _ => by simp
  unfold releaseTurn
  dsimp only
  split
  · split
    · exact hidle.endRelease _
    · exact Works.afterRelease (hidle.see rfl) _
  · exact hidle.afterRelease _
  · exact hidle

/-- The body learns that the release is over. -/
theorem works_releaseOverTurn {e : Engine} {d : Desk} (hn : d.notes = []) (ho : d.orders = []) :
    Works e d d.releaseOverTurn := by
  unfold releaseOverTurn
  split
  · exact (Works.refl hn ho).callBody
  · exact Works.refl hn ho

/-- The body learns that the release takes too long. -/
theorem works_graceTurn {e : Engine} {d : Desk} (hn : d.notes = []) (ho : d.orders = []) :
    Works e d d.graceTurn := by
  unfold graceTurn
  split
  · exact (Works.refl hn ho).callBody
  · exact Works.refl hn ho

end Desk

/-! ## The body -/

namespace Engine

open Desk

theorem works_beginRelease (e : Engine) {d d' : Desk} (h : Works e d d')
    (hd : d.flight.body.isOver = false) (hd' : d'.flight.body.isOver = false) (u : ExecutionUnit)
    (ending : Ending JobStatus) : Works e d (e.beginRelease u ending d') := by
  unfold beginRelease
  split
  · exact (h.setBody hd hd' fun _ => by simp [Body.isOver]).push fun _ => by rfl
  · have hgrace : ∀ post, (Order.set e.grace .grace).ofBody e post = true :=
      fun _ => decide_eq_true rfl
    exact ((h.setBody hd hd' fun _ => by simp [Body.isOver]).setTimer hgrace).push fun _ => by
      rfl

theorem works_afterSteps (e : Engine) {d d' : Desk} (h : Works e d d')
    (hd : d.flight.body.isOver = false) (hd' : d'.flight.body.isOver = false) (u : ExecutionUnit)
    (a : Activity StepNote Bool) : Works e d (e.afterSteps u (a.proceed d'.around) d') := by
  unfold afterSteps
  split
  · exact e.works_beginRelease (h.absorb rfl) hd hd' u _
  · exact (h.absorb rfl).pauseBody hd hd' rfl _

theorem works_beginSteps (e : Engine) {d d' : Desk} (h : Works e d d')
    (hd : d.flight.body.isOver = false) (hd' : d'.flight.body.isOver = false)
    (u : ExecutionUnit) :
    Works e d (e.beginSteps u d') :=
  e.works_afterSteps ((h.see rfl).move .running) hd hd' u _

theorem works_refuse {e : Engine} {d d' : Desk} (h : Works e d d')
    (hd : d.flight.body.isOver = false)
    (fault : Fault) : Works e d (refuse fault d') :=
  Works.endBody (((h.log _ _).see rfl).edit fun _ => by simp) hd _

theorem works_afterAcquire (e : Engine) {d d' : Desk} (h : Works e d d')
    (hd : d.flight.body.isOver = false) (hd' : d'.flight.body.isOver = false)
    (a : Activity Deed ExecutionUnit) : Works e d (e.afterAcquire (a.proceed d'.around) d') := by
  unfold afterAcquire
  split
  · exact e.works_beginSteps (h.absorb rfl) hd hd' _
  · exact works_refuse (h.absorb rfl) hd _
  · exact (h.absorb rfl).endBody hd _
  · exact (h.absorb rfl).pauseBody hd hd' rfl _

theorem works_afterGrace {e : Engine} {d d' : Desk} (h : Works e d d')
    (hd : d.flight.body.isOver = false)
    (hd' : d'.flight.body.isOver = false) (u : ExecutionUnit) (ending : Ending JobStatus)
    (cut : Bool) : Works e d (afterGrace u ending cut d') := by
  have hdrop : Works e d (d'.dropTimer .grace) := h.dropTimer fun _ => by rfl
  unfold afterGrace
  split
  · exact hdrop.endBody hd _
  · exact (hdrop.log _ _).endBody hd _
  · exact hdrop.endBody hd _
  · exact (hdrop.setBody hd hd' fun _ => by simp [Body.isOver]).cutRelease

theorem works_afterCut (e : Engine) {d d' : Desk} (h : Works e d d')
    (hd : d.flight.body.isOver = false) (u : ExecutionUnit) (ending : Ending JobStatus)
    (cut : Bool) : Works e d (e.afterCut u ending cut d') := by
  unfold afterCut
  split
  · exact h.endBody hd _
  · split
    · exact h.endBody hd _
    · exact (h.log _ _).endBody hd _
    · exact (h.log _ _).endBody hd _
    · exact h

/-- **A turn of the body is a turn of body and release.** -/
theorem works_bodyTurn (e : Engine) {d : Desk} (hn : d.notes = []) (ho : d.orders = []) :
    Works e d (e.bodyTurn d) := by
  have hidle : Works e d (d.edit fun x => { x with bodyCall := .idle }) :=
    (Works.refl hn ho).edit fun _ => by simp
  unfold bodyTurn
  dsimp only
  split
  · rename_i hb
    have hd : d.flight.body.isOver = false := by rw [hb]; rfl
    split
    · exact hidle.endBody hd _
    · exact e.works_afterAcquire (hidle.move _) hd hd _
  · rename_i hb
    have hd : d.flight.body.isOver = false := by rw [hb]; rfl
    exact e.works_afterAcquire hidle hd hd _
  · rename_i hb
    have hd : d.flight.body.isOver = false := by rw [hb]; rfl
    exact e.works_afterSteps hidle hd hd _ _
  · rename_i hb
    have hd : d.flight.body.isOver = false := by rw [hb]; rfl
    exact works_afterGrace hidle hd hd _ _ _
  · rename_i hb
    have hd : d.flight.body.isOver = false := by rw [hb]; rfl
    exact e.works_afterCut hidle hd _ _ _
  · exact hidle

end Engine

/-! ## The worker -/

/-- A note of the worker tells nothing of the course of the steps. -/
def Note.ofWorker : Note → Bool
  | .log .. | .moved .. | .completed _ => true
  | _ => false

/-- What a worker may ask of the floor. -/
def Order.ofWorker (e : Engine) : Order → Bool
  | .cue .body | .cue (.bodyOver .preempting) => true
  | .set span .patience => span = e.patience
  | .drop .timeout | .drop .patience | .drop .body => true
  | _ => false

namespace Desk

/-- What a turn of the worker makes of a desk. -/
structure Tends (e : Engine) (d d' : Desk) : Prop where
  job : d'.flight.job = d.flight.job
  worker : d'.flight.worker = d.flight.worker
  takenAt : d'.flight.takenAt = d.flight.takenAt
  steps : d'.flight.steps = d.flight.steps
  body : d'.flight.body = d.flight.body
  release : d'.flight.release = d.flight.release
  releaseCall : d'.flight.releaseCall = d.flight.releaseCall
  call : d'.call = d.call
  around : d'.around = d.around
  post : d'.post ≠ .away
  notes : ∀ n ∈ d'.notes, n.ofWorker = true
  orders : ∀ o ∈ d'.orders, o.ofWorker e = true

namespace Tends

variable {e : Engine} {d d' : Desk}

theorem refl (hp : d.post ≠ .away) (hn : d.notes = []) (ho : d.orders = []) : Tends e d d := by
  refine ⟨rfl, rfl, rfl, rfl, rfl, rfl, rfl, rfl, rfl, hp, ?_, ?_⟩
  · simp [hn]
  · simp [ho]

theorem edit (h : Tends e d d') {g : Flight → Flight}
    (hg : ∀ x, (g x).job = x.job ∧ (g x).worker = x.worker ∧ (g x).takenAt = x.takenAt ∧
      (g x).steps = x.steps ∧ (g x).body = x.body ∧ (g x).release = x.release ∧
      (g x).releaseCall = x.releaseCall) : Tends e d (d'.edit g) := by
  obtain ⟨hjob, hworker, htaken, hsteps, hbody, hrelease, hcall⟩ := hg d'.flight
  exact ⟨hjob.trans h.job, hworker.trans h.worker, htaken.trans h.takenAt, hsteps.trans h.steps,
    hbody.trans h.body, hrelease.trans h.release, hcall.trans h.releaseCall, h.call,
    h.around, h.post,
    h.notes, h.orders⟩

theorem see (h : Tends e d d') {n : Note} (hn : n.ofWorker = true) : Tends e d (d'.see n) := by
  refine { h with notes := ?_ }
  intro m hm
  rcases List.mem_append.1 hm with hm | hm
  · exact h.notes m hm
  · rw [List.mem_singleton.1 hm]
    exact hn

theorem log (h : Tends e d d') (level : LogLevel) (message : Text) :
    Tends e d (d'.log level message) := h.see rfl

theorem order (h : Tends e d d') {o : Order} (ho : o.ofWorker e = true) :
    Tends e d (d'.order o) := by
  refine { h with orders := ?_ }
  intro p hp
  rcases List.mem_append.1 hp with hp | hp
  · exact h.orders p hp
  · rw [List.mem_singleton.1 hp]
    exact ho

theorem conclude (h : Tends e d d') (status : JobStatus) :
    Tends e d (e.conclude status d') :=
  Tends.see ((h.see rfl).edit fun _ => by simp) rfl

theorem cutBody (h : Tends e d d') : Tends e d d'.cutBody := by
  have hcut : Tends e d ((d'.edit fun x => { x with bodyCall := .cut }).dropTimer .body) :=
    (h.edit fun _ => by simp).order rfl
  unfold Desk.cutBody
  split
  · exact hcut.order rfl
  · exact hcut

theorem preempt (h : Tends e d d') (cause : Cause) : Tends e d (e.preempt cause d') := by
  have hpost : Tends e d { d' with post := .preempting cause } := { h with post := by simp }
  have hpatience : (Order.set e.patience .patience).ofWorker e = true := decide_eq_true rfl
  unfold Engine.preempt
  split
  · exact (hpost.order hpatience).order rfl
  · exact hpost.cutBody.order hpatience

end Tends

end Desk

namespace Engine

open Desk

/-- **A turn of a worker that watched a job.** -/
theorem tends_afterWatching (e : Engine) {d : Desk} (hp : d.post ≠ .away) (hn : d.notes = [])
    (ho : d.orders = []) (cut : Bool) : Tends e d (e.afterWatching cut d).1 := by
  have hd : Tends e d ((d.edit fun x => { x with watch := .dismissed }).dropTimer .timeout) :=
    ((Tends.refl hp hn ho).edit fun _ => by simp).order rfl
  unfold afterWatching
  dsimp only
  split
  · exact hd.preempt _
  · split
    · exact hd.conclude _
    · split
      · exact (hd.log _ _).preempt _
      · exact (hd.log _ _).preempt _
    · exact hd.preempt _
    · split
      · exact (hd.log _ _).preempt _
      · exact (hd.log _ _).preempt _

/-- **A turn of a worker that waited for an interrupted body.** -/
theorem tends_afterPreempting (e : Engine) {d : Desk} (hp : d.post ≠ .away) (hn : d.notes = [])
    (ho : d.orders = []) (cause : Cause) (cut : Bool) :
    Tends e d (e.afterPreempting cause cut d).1 := by
  have hd : Tends e d (d.dropTimer .patience) := (Tends.refl hp hn ho).order rfl
  unfold afterPreempting
  dsimp only
  split
  · exact hd
  · cases preemptionMessage d.flight.body with
    | some message =>
      have htold := hd.log .error message
      cases cause.status? with
      | some status => exact htold.conclude status
      | none => exact htold
    | none =>
      cases cause.status? with
      | some status => exact hd.conclude status
      | none => exact hd

end Engine

/-! ## Putting a flight back -/

/-- A desk after a turn can be put back where it was taken: it is the same job in flight with the
same worker, no time has passed, and nothing takes a cancellation back. A worker that is away
stays away, and only a worker that is not can be called. The timeout runs from the start and is
never set again. -/
structure Desk.Fits (d d' : Desk) : Prop where
  job : d'.flight.job = d.flight.job
  worker : d'.flight.worker = d.flight.worker
  takenAt : d'.flight.takenAt = d.flight.takenAt
  post : d'.post = .away ↔ d.post = .away
  call : d'.post = .away → d'.call = .idle
  now : d'.around.now = d.around.now
  canceled : d'.around.canceled = canceledAfter d.around.canceled d'.notes
  /-- The worker is called once, or not at all. -/
  calls : .worker ∉ d'.orders ∧ d'.call = d.call ∨
    d'.post ≠ .away ∧ d.call = .idle ∧ d'.call = .called ∧ d'.orders.count .worker = 1
  timers : ∀ span, .set span .timeout ∉ d'.orders

/-- Only a worker that does something about the flight is called. -/
theorem Desk.Fits.orders {d d' : Desk} (h : d.Fits d') (ho : .worker ∈ d'.orders) :
    d'.post ≠ .away := by
  rcases h.calls with ⟨hno, -⟩ | ⟨hp, -⟩
  · exact absurd ho hno
  · exact hp

namespace Desk

variable {d d' : Desk}

theorem Works.fits {e : Engine} (h : Works e d d') (hc : d.post = .away → d.call = .idle) :
    d.Fits d' := by
  refine ⟨h.job, h.worker, h.takenAt, by rw [h.post], fun hp => ?_, h.now, h.canceled,
    .inl ⟨fun ho => ?_, h.call⟩, fun span ho => ?_⟩
  · rw [h.call]
    exact hc (h.post ▸ hp)
  · have hw := h.orders _ ho
    cases hw
  · have hw := h.orders _ ho
    simp [Order.ofBody] at hw

theorem Tends.fits {e : Engine} (h : Tends e d d') (hp : d.post ≠ .away) : d.Fits d' := by
  refine ⟨h.job, h.worker, h.takenAt, ⟨fun ha => absurd ha h.post, fun ha => absurd ha hp⟩,
    fun ha => absurd ha h.post, by rw [h.around], ?_, .inl ⟨fun ho => ?_, h.call⟩,
    fun span ho => ?_⟩
  · have hno : .canceled ∉ d'.notes := by
      intro hmem
      have hn := h.notes _ hmem
      cases hn
    simp [h.around, canceledAfter, hno]
  · have hw := h.orders _ ho
    cases hw
  · have hw := h.orders _ ho
    cases hw

/-- A turn that only changes the watch and asks for nothing but a turn of the worker. -/
theorem fits_of_same (g : Flight → Flight) (os : List Order) (hn : d.notes = [])
    (hc : d.post = .away → d.call = .idle)
    (hg : ∀ x, (g x).job = x.job ∧ (g x).worker = x.worker ∧ (g x).takenAt = x.takenAt)
    (hos : ∀ o ∈ os, o = .cue .watchOver) :
    d.Fits { d with flight := g d.flight, orders := os } := by
  obtain ⟨hjob, hworker, htaken⟩ := hg d.flight
  refine ⟨hjob, hworker, htaken, Iff.rfl, hc, rfl, by simp [hn], .inl ⟨fun ho => ?_, rfl⟩,
    fun span ho => ?_⟩
  · cases hos _ ho
  · cases hos _ ho

theorem fits_callWorker (hn : d.notes = []) (ho : d.orders = [])
    (hc : d.post = .away → d.call = .idle) (vigil : Vigil) : d.Fits (d.callWorker vigil) := by
  unfold callWorker
  split
  · rename_i h
    have hp : d.post ≠ .away := by
      intro ha
      rw [ha] at h
      cases h.1
    refine ⟨rfl, rfl, rfl, Iff.rfl, fun ha => absurd ha hp, rfl, ?_, .inr ⟨hp, h.2, rfl, ?_⟩,
      fun span hs => ?_⟩
    · simp [order, hn]
    · simp [order, ho]
    · simp [order, ho] at hs
  · exact fits_of_same id d.orders hn hc (fun _ => ⟨rfl, rfl, rfl⟩) (by simp [ho])

/-- What a message does at a desk. Body and release have turns of their own; the watch begins to
wait for the cancellation, or ends. Every other message calls somebody, or does nothing any
more. -/
inductive Cued (e : Engine) (d : Desk) : Cue → Desk → Prop
  | body : Cued e d .body (e.bodyTurn d)
  | release : Cued e d .release d.releaseTurn
  | watches : Cued e d .watch (d.edit fun x => { x with watch := .waiting })
  | endsWatch : Cued e d .watch d.endWatch
  | callsBody (c : Cue) (news : c = .releaseOver ∨ c = .bell .body ∨ c = .bell .grace) :
      Cued e d c d.callBody
  | callsRelease : Cued e d (.bell .release) d.callRelease
  | callsWorker (c : Cue) (vigil : Vigil) : Cued e d c (d.callWorker vigil)
  | nothing (c : Cue) : Cued e d c d

end Desk

open Desk in
/-- **What a message does at a desk**, whatever it says. -/
theorem Engine.cued_cueTurn (e : Engine) (c : Cue) (d : Desk) : d.Cued e c (e.cueTurn c d) := by
  cases c with
  | body => exact .body
  | release => exact .release
  | watch =>
    show d.Cued e .watch d.watchTurn
    unfold watchTurn
    split
    · split
      · exact .endsWatch
      · exact .watches
    · exact .endsWatch
    · exact .nothing _
  | bodyOver vigil => exact .callsWorker _ vigil
  | watchOver => exact .callsWorker _ .watching
  | releaseOver =>
    show d.Cued e .releaseOver d.releaseOverTurn
    unfold releaseOverTurn
    split
    · exact .callsBody _ (.inl rfl)
    · exact .nothing _
  | bell b =>
    cases b with
    | body => exact .callsBody _ (.inr (.inl rfl))
    | release => exact .callsRelease
    | grace =>
      show d.Cued e (.bell .grace) d.graceTurn
      unfold graceTurn
      split
      · exact .callsBody _ (.inr (.inr rfl))
      · exact .nothing _
    | timeout => exact .callsWorker _ .watching
    | patience => exact .callsWorker _ .preempting

open Desk in
/-- A turn on a flight does not change what the worker does, gives no result, and leaves a body
that is over as it is. -/
theorem Engine.stays_cueTurn (e : Engine) {d : Desk} (hn : d.notes = []) (ho : d.orders = [])
    (c : Cue) :
    (e.cueTurn c d).post = d.post ∧ (∀ r, .completed r ∉ (e.cueTurn c d).notes) ∧
      (d.flight.body.isOver = true → (e.cueTurn c d).flight.body = d.flight.body) := by
  have hworks : ∀ d' : Desk, Works e d d' → d'.post = d.post ∧ (∀ r, .completed r ∉ d'.notes) ∧
      (d.flight.body.isOver = true → d'.flight.body = d.flight.body) :=
    fun d' h => ⟨h.post, h.results, h.stays⟩
  have hcued := e.cued_cueTurn c d
  generalize e.cueTurn c d = d' at hcued
  cases hcued with
  | body => exact hworks _ (e.works_bodyTurn hn ho)
  | release => exact hworks _ (works_releaseTurn hn ho)
  | watches => exact ⟨rfl, by simp [edit, hn], fun _ => rfl⟩
  | endsWatch => exact ⟨rfl, by simp [endWatch, push, Desk.order, edit, hn], fun _ => rfl⟩
  | callsBody => exact hworks _ (Works.refl hn ho).callBody
  | callsRelease => exact hworks _ (Works.refl hn ho).callRelease
  | callsWorker _ vigil =>
    unfold callWorker
    split
    · exact ⟨rfl, by simp [Desk.order, hn], fun _ => rfl⟩
    · exact ⟨rfl, by simp [hn], fun _ => rfl⟩
  | nothing => exact hworks _ (Works.refl hn ho)

open Desk in
/-- What a turn on a flight asks for: what a body may ask for, or that the worker or the news of
the cancellation has its turn. -/
theorem Engine.orders_cueTurn (e : Engine) {d : Desk} (hn : d.notes = []) (ho : d.orders = [])
    (c : Cue) {o : Order} (h : o ∈ (e.cueTurn c d).orders) :
    o.ofBody e d.post = true ∨ o = .worker ∨ o = .cue .watchOver := by
  have hworks : ∀ d' : Desk, Works e d d' → o ∈ d'.orders →
      o.ofBody e d.post = true ∨ o = .worker ∨ o = .cue .watchOver :=
    fun d' hd h => .inl (hd.orders o h)
  have hcued := e.cued_cueTurn c d
  generalize e.cueTurn c d = d' at hcued h
  cases hcued with
  | body => exact hworks _ (e.works_bodyTurn hn ho) h
  | release => exact hworks _ (works_releaseTurn hn ho) h
  | watches => simp [edit, ho] at h
  | endsWatch => exact .inr (.inr (by simpa [endWatch, push, Desk.order, edit, ho] using h))
  | callsBody => exact hworks _ (Works.refl hn ho).callBody h
  | callsRelease => exact hworks _ (Works.refl hn ho).callRelease h
  | callsWorker _ vigil =>
    unfold callWorker at h
    split at h
    · exact .inr (.inl (by simpa [Desk.order, ho] using h))
    · rw [ho] at h
      cases h
  | nothing =>
    rw [ho] at h
    cases h

open Desk in
/-- Every turn on a flight leaves a desk that can be put back. -/
theorem Engine.fits_cueTurn (e : Engine) {d : Desk} (hn : d.notes = []) (ho : d.orders = [])
    (hc : d.post = .away → d.call = .idle) (c : Cue) : d.Fits (e.cueTurn c d) := by
  have hcued := e.cued_cueTurn c d
  generalize e.cueTurn c d = d' at hcued
  cases hcued with
  | body => exact (e.works_bodyTurn hn ho).fits hc
  | release => exact (works_releaseTurn (e := e) hn ho).fits hc
  | watches =>
    exact fits_of_same (fun x => { x with watch := .waiting }) d.orders hn hc
      (fun _ => ⟨rfl, rfl, rfl⟩) (by simp [ho])
  | endsWatch =>
    exact fits_of_same (fun x => { x with watch := .ended }) (d.orders ++ [Order.cue .watchOver])
      hn hc (fun _ => ⟨rfl, rfl, rfl⟩) (by simp [ho])
  | callsBody => exact (Works.refl (e := e) hn ho).callBody.fits hc
  | callsRelease => exact (Works.refl (e := e) hn ho).callRelease.fits hc
  | callsWorker _ vigil => exact fits_callWorker hn ho hc vigil
  | nothing => exact (Works.refl (e := e) hn ho).fits hc

end Conveyor
