import Conveyor.Proofs.Schedule.Awaiting
import Conveyor.Unit.Scripted

/-!
# The states of a job

Two parties move a job from state to state: its body, when it starts and when it has its unit,
and its worker, when the job has its result. Where a job can go from a state depends on how far
its body has got, and on what its worker does meanwhile.

- `JobState.Next`, `Walk`: where a job can go, and how it got where it is.
- `transitionsAmong`: the transitions among some notes; `ScheduleReport.exists_logged` shows what
  the log says of each.
- `Activity.Yields`: an interruption ends it in that turn; `ProvisionPlan.yields_acquire` says so
  of the acquisition of units that follow a plan.
- `Desk.Dwells`: a turn that leaves the state of the job alone; `Desk.dwells_cueTurn` says so of
  all turns but those of body and worker.
- `Body.Suits`: body, worker and state agree.
- `Engine.staged_bodyTurn`: **what a turn of the body makes of the state**.
- `Engine.state_afterWatching`, `Engine.state_afterPreempting`: what a turn of the worker makes
  of it.
-/

namespace Conveyor

/-! ## States -/

/-- Where a job can go from a state. -/
inductive JobState.Next : JobState → JobState → Prop
  | provision : Next .queued .provisioning
  | run : Next .provisioning .running
  /-- A job that did not run has no success. -/
  | giveUp {status : JobStatus} (unsuccessful : status ≠ .success) :
    Next .provisioning (.ended status)
  | finish (status : JobStatus) : Next .running (.ended status)

/-- How a job got from the queue to a state. -/
inductive Walk (jobId : Text) : JobState → List (Text × JobState × JobState) → Prop
  | start : Walk jobId .queued []
  | step {source target : JobState} {ts : List (Text × JobState × JobState)}
      (walk : Walk jobId source ts) (next : source.Next target) :
      Walk jobId target (ts ++ [(jobId, source, target)])

namespace Walk

variable {jobId : Text} {state : JobState} {status : JobStatus}
    {ts : List (Text × JobState × JobState)}

theorem jobId_eq (h : Walk jobId state ts) {t : Text × JobState × JobState} (ht : t ∈ ts) :
    t.1 = jobId := by
  induction h with
  | start => cases ht
  | step walk next ih =>
    rcases List.mem_append.1 ht with ht | ht
    · exact ih ht
    · rw [List.mem_singleton.1 ht]

theorem of_queued (h : Walk jobId .queued ts) : ts = [] := by
  cases h with
  | start => rfl
  | step walk next => cases next

theorem of_provisioning (h : Walk jobId .provisioning ts) :
    ts = [(jobId, .queued, .provisioning)] := by
  cases h with
  | step walk next =>
    cases next with
    | provision => rw [walk.of_queued, List.nil_append]

theorem of_running (h : Walk jobId .running ts) :
    ts = [(jobId, .queued, .provisioning), (jobId, .provisioning, .running)] := by
  cases h with
  | step walk next =>
    cases next with
    | run => rw [walk.of_provisioning, List.singleton_append]

/-- A job that has ended went one of two ways. -/
theorem of_ended (h : Walk jobId (.ended status) ts) :
    status ≠ .success ∧ ts = [(jobId, .queued, .provisioning),
        (jobId, .provisioning, .ended status)] ∨
      ts = [(jobId, .queued, .provisioning), (jobId, .provisioning, .running),
        (jobId, .running, .ended status)] := by
  cases h with
  | step walk next =>
    cases next with
    | giveUp unsuccessful => exact .inl ⟨unsuccessful, by
      rw [walk.of_provisioning, List.singleton_append]⟩
    | finish => exact .inr (by rw [walk.of_running]; rfl)

end Walk

/-! ## Notes of transitions -/

/-- The transition that a note tells of, with the id of the job. -/
def Note.transition? : Note → Option (Text × JobState × JobState)
  | .moved jobId source target => some (jobId, source, target)
  | .turnedAway jobId => some (jobId, .queued, .ended .canceled)
  | _ => none

/-- The transitions among some notes. -/
def transitionsAmong (ns : List Note) : List (Text × JobState × JobState) :=
  ns.filterMap Note.transition?

/-- The log tells of each transition. -/
theorem Note.logged?_of_transition {n : Note} {jobId : Text} {source target : JobState}
    (h : n.transition? = some (jobId, source, target)) (time : Nat) :
    ∃ remark, n.logged? time = some ⟨time, .info,
      "Job " ++ jobId ++ ": " ++ source.word ++ " -> " ++ target.word ++ remark⟩ := by
  cases n with
  | moved jobId source target =>
    cases h
    exact ⟨"", by rw [Text.append_empty]; rfl⟩
  | turnedAway jobId =>
    cases h
    refine ⟨" (never started)", ?_⟩
    simp only [Note.logged?, Text.append_assoc]
    rfl
  | _ => cases h

/-- The transitions in a report, as its log tells of them. -/
theorem ScheduleReport.exists_logged {s : ScheduleReport} {x : Sighting} (hx : x ∈ s.sightings)
    {jobId : Text} {source target : JobState} (h : x.note.transition? =
        some (jobId, source, target)) :
    ∃ remark, ⟨x.time, .info, "Job " ++ jobId ++ ": " ++ source.word ++ " -> " ++ target.word ++
        remark⟩ ∈
      s.log := by
  obtain ⟨remark, hlogged⟩ := Note.logged?_of_transition h x.time
  exact ⟨remark, List.mem_filterMap.2 ⟨(x.time, x.note), List.mem_map.2 ⟨x, hx, rfl⟩, hlogged⟩⟩

@[simp] theorem transitionsAmong_append (ms ns : List Note) :
    transitionsAmong (ms ++ ns) = transitionsAmong ms ++ transitionsAmong ns :=
        List.filterMap_append

theorem transitionsAmong_cons (n : Note) (ns : List Note) :
    transitionsAmong (n :: ns) = n.transition?.toList ++ transitionsAmong ns := by
  unfold transitionsAmong
  cases h : n.transition? with
  | none =>
    rw [List.filterMap_cons_none h]
    rfl
  | some t =>
    rw [List.filterMap_cons_some h]
    rfl

theorem transitionsAmong_eq_nil {ns : List Note} (h : ∀ n ∈ ns, n.transition? = none) :
    transitionsAmong ns = [] := List.filterMap_eq_nil_iff.2 h

theorem Note.transition_of_outside {n : Note} (h : n.outside = true) : n.transition? = none := by
  cases n <;> first | rfl | cases h

theorem Deed.transition_toNote (d : Deed) : d.toNote.transition? = none := by
  cases d <;> rfl

theorem StepNote.transition_toNote (n : StepNote) : n.toNote.transition? = none := by
  cases n with
  | deed d => exact d.transition_toNote
  | recorded result => rfl
  | began script env => rfl
  | ended => rfl

namespace Activity

variable {ν α : Type} [NoteKind ν]

/-- Who cannot tell of transitions in one note does not do so in a stretch. -/
theorem transitions_proceed (hν : ∀ n : ν, (NoteKind.toNote n).transition? = none)
    (a : Activity ν α)
    (s : Surroundings) : transitionsAmong (a.proceed s).notes = [] := by
  induction a generalizing s with
  | finish e => rfl
  | note n next ih => exact (List.filterMap_cons_none (hν n)).trans (ih s)
  | wait span next => rfl
  | clock next ih => exact ih s.now s
  | poll next ih => exact ih s.canceled s
  | cancel next ih => exact (List.filterMap_cons_none rfl).trans (ih { s with canceled := true })
  | draw c next ih => exact ih (s.draw c).1 (s.draw c).2

/-! ## Interruptions -/

/-- However long it has waited, an interruption ends the activity in that turn. -/
def Yields : Activity ν α → Prop
  | finish _ => True
  | note _ next => next.Yields
  | wait _ next =>
    (∀ s, ∃ ending, ((next true).proceed s).rest = .ended ending) ∧ (next false).Yields
  | clock next => ∀ time, (next time).Yields
  | poll next => ∀ canceled, (next canceled).Yields
  | cancel next => next.Yields
  | draw _ next => ∀ number, (next number).Yields

/-- Where a stretch leaves it waiting, an interruption still ends it. -/
theorem Yields.proceed {a : Activity ν α} (h : a.Yields) {s : Surroundings} {span : Nat}
    {next : Bool → Activity ν α} (hr : (a.proceed s).rest = .waiting span next) :
    (wait span next).Yields := by
  induction a generalizing s with
  | finish e => cases hr
  | note n next' ih => exact ih h hr
  | wait span' next' =>
    cases hr
    exact h
  | clock next' ih => exact ih s.now (h s.now) hr
  | poll next' ih => exact ih s.canceled (h s.canceled) hr
  | cancel next' ih => exact ih h hr
  | draw c next' ih => exact ih (s.draw c).1 (h (s.draw c).1) hr

end Activity

namespace ProvisionPlan

/-- After its delay, an acquisition is over at once. -/
theorem exists_acquireNow (p : ProvisionPlan) (i : JobInstance) :
    ∃ ending, p.acquireNow i = .finish ending := by
  unfold acquireNow
  dsimp only
  split
  · exact ⟨_, rfl⟩
  · exact ⟨_, rfl⟩
  · exact ⟨_, rfl⟩

/-- **The acquisition of a unit that follows a plan is over when it is interrupted**, be it that
it heeds the interruption or that it swallows it. -/
theorem yields_acquire (p : ProvisionPlan) (i : JobInstance) : (p.acquire i).Yields := by
  obtain ⟨ending, hnow⟩ := p.exists_acquireNow i
  have hyields : (p.acquireNow i).Yields := by
    rw [hnow]
    trivial
  unfold acquire
  split
  · exact hyields
  · refine ⟨fun s => ?_, hyields⟩
    dsimp only
    split
    · exact ⟨_, rfl⟩
    · rw [hnow]
      exact ⟨_, rfl⟩

end ProvisionPlan

/-! ## Turns on a flight -/

/-- A body that has not got its unit yet. -/
def Body.seeks : Body → Bool
  | .fresh | .acquiring _ => true
  | _ => false

namespace Desk

/-- A turn that leaves the state of the job alone; who was called stays called. -/
structure Dwells (d d' : Desk) : Prop where
  job : d'.flight.job = d.flight.job
  state : d'.flight.state = d.flight.state
  bodyCall : d.flight.bodyCall ≠ .idle → d'.flight.bodyCall = d.flight.bodyCall
  transitions : transitionsAmong d'.notes = transitionsAmong d.notes

namespace Dwells

variable {d d' : Desk}

theorem refl (d : Desk) : Dwells d d := ⟨rfl, rfl, fun _ => rfl, rfl⟩

theorem edit (h : Dwells d d') {g : Flight → Flight}
    (hg : ∀ x, (g x).job = x.job ∧ (g x).state = x.state ∧ (g x).bodyCall = x.bodyCall) :
    Dwells d (d'.edit g) := by
  obtain ⟨hjob, hstate, hcall⟩ := hg d'.flight
  exact ⟨hjob.trans h.job, hstate.trans h.state, fun hne => hcall.trans (h.bodyCall hne),
    h.transitions⟩

theorem see (h : Dwells d d') {n : Note} (hn : n.transition? = none) : Dwells d (d'.see n) := by
  refine { h with transitions := ?_ }
  rw [← h.transitions, Desk.see, transitionsAmong_append]
  exact (congrArg _ (List.filterMap_cons_none hn)).trans (List.append_nil _)

theorem order (h : Dwells d d') (o : Order) : Dwells d (d'.order o) := { h with }

theorem absorb {ν α : Type} [NoteKind ν] (hν : ∀ n : ν, (NoteKind.toNote n).transition? = none)
    (h : Dwells d d') (a : Activity ν α) (s : Surroundings) :
    Dwells d (d'.absorb (a.proceed s)) := by
  refine { h with transitions := ?_ }
  show transitionsAmong (d'.notes ++ (a.proceed s).notes) = transitionsAmong d.notes
  rw [transitionsAmong_append, a.transitions_proceed hν, List.append_nil, h.transitions]

theorem callBody (h : Dwells d d') : Dwells d d'.callBody := by
  unfold Desk.callBody
  split
  · rename_i hidle
    -- Who is idle now was not called before.
    exact { h with bodyCall := fun hne => absurd ((h.bodyCall hne).symm.trans hidle) hne }
  · exact h

theorem callRelease (h : Dwells d d') : Dwells d d'.callRelease := by
  have hcalled : Dwells d (d'.edit fun x => { x with releaseCall := .called }) :=
    h.edit fun _ => ⟨rfl, rfl, rfl⟩
  unfold Desk.callRelease
  split
  · exact hcalled.order _
  · exact h

theorem cutRelease (h : Dwells d d') : Dwells d d'.cutRelease := by
  have hset : Dwells d (d'.edit fun x => { x with releaseCall := .cut }) :=
    h.edit fun _ => ⟨rfl, rfl, rfl⟩
  unfold Desk.cutRelease
  split
  · exact (hset.order _).order _
  · exact hset.order _

theorem pauseBody (h : Dwells d d') (state : Body) (span : Nat) :
    Dwells d (d'.pauseBody state span) := by
  have hset : Dwells d (d'.edit fun x => { x with body := state }) :=
    h.edit fun _ => ⟨rfl, rfl, rfl⟩
  unfold Desk.pauseBody
  split
  · exact hset.callBody
  · exact hset.order _

theorem endBody (h : Dwells d d') (ending : Ending JobStatus) :
    Dwells d (d'.endBody ending) := by
  have hset : Dwells d (d'.edit fun x => { x with body := .ended ending }) :=
    h.edit fun _ => ⟨rfl, rfl, rfl⟩
  unfold Desk.endBody
  split
  · exact hset.order _
  · exact hset

theorem endRelease (h : Dwells d d') (ending : Ending Unit) :
    Dwells d (d'.endRelease ending) := by
  have hended : ∀ d'' : Desk, Dwells d d'' →
      Dwells d ((d''.edit fun x => { x with release := .ended ending }).push .releaseOver) := by
    intro d'' h''
    have hset : Dwells d (d''.edit fun x => { x with release := .ended ending }) :=
      h''.edit fun _ => ⟨rfl, rfl, rfl⟩
    exact hset.order _
  unfold Desk.endRelease
  split
  · exact hended _ (h.see rfl)
  · exact hended _ h

theorem afterRelease (h : Dwells d d') (a : Activity Deed Unit) (s : Surroundings) :
    Dwells d (d'.afterRelease (a.proceed s)) := by
  have habsorb := h.absorb Deed.transition_toNote a s
  unfold Desk.afterRelease
  split
  · exact habsorb.endRelease _
  · rename_i span next hrest
    have hset : Dwells d ((d'.absorb (a.proceed s)).edit fun x =>
        { x with release := .waiting next }) :=
      habsorb.edit fun _ => ⟨rfl, rfl, rfl⟩
    unfold Desk.pauseRelease
    split
    · exact hset.callRelease
    · exact hset.order _

end Dwells

variable {d : Desk}

theorem dwells_releaseTurn (d : Desk) : Dwells d d.releaseTurn := by
  have hidle : Dwells d (d.edit fun x => { x with releaseCall := .idle }) :=
    (Dwells.refl d).edit fun _ => ⟨rfl, rfl, rfl⟩
  unfold releaseTurn
  dsimp only
  split
  · split
    · exact hidle.endRelease _
    · exact (hidle.see rfl).afterRelease _ _
  · exact hidle.afterRelease _ _
  · exact hidle

theorem dwells_callWorker (d : Desk) (vigil : Vigil) : Dwells d (d.callWorker vigil) := by
  unfold callWorker
  split
  · exact { Dwells.refl d with }
  · exact Dwells.refl d

/-- **Only body and worker move a job.** -/
theorem dwells_cueTurn (e : Engine) (d : Desk) {c : Cue} (hc : c ≠ .body) :
    Dwells d (e.cueTurn c d) := by
  have hrefl := Dwells.refl d
  have hcued := e.cued_cueTurn c d
  generalize e.cueTurn c d = d' at hcued
  cases hcued with
  | body => exact absurd rfl hc
  | release => exact d.dwells_releaseTurn
  | watches => exact hrefl.edit fun _ => ⟨rfl, rfl, rfl⟩
  | endsWatch =>
    have hset : Dwells d (d.edit fun x => { x with watch := .ended }) :=
      hrefl.edit fun _ => ⟨rfl, rfl, rfl⟩
    exact hset.order _
  | callsBody => exact hrefl.callBody
  | callsRelease => exact hrefl.callRelease
  | callsWorker _ vigil => exact d.dwells_callWorker vigil
  | nothing => exact hrefl

/-- A turn of a body that has its unit, or is over: it leaves the state of the job alone, and is
never without a unit again. -/
structure Progresses (d d' : Desk) : Prop extends Dwells d d' where
  seeks : d'.flight.body.seeks = false

end Desk

namespace Engine

open Desk

variable {e : Engine} {d d' : Desk}

theorem progresses_endBody (h : Dwells d d') (ending : Ending JobStatus) :
    Progresses d (d'.endBody ending) := by
  refine { h.endBody ending with seeks := ?_ }
  rw [endBody_eq]
  rfl

theorem progresses_beginRelease (h : Dwells d d') (u : ExecutionUnit)
    (ending : Ending JobStatus) :
    Progresses d (e.beginRelease u ending d') := by
  have hset : ∀ (hold : Hold) (act : Activity Deed Unit) (call : Call),
      Dwells d (d'.edit fun x =>
      { x with body := .releasing u ending hold, release := .fresh act, releaseCall := call }) :=
    fun hold act call => h.edit fun _ => ⟨rfl, rfl, rfl⟩
  unfold beginRelease
  split
  · exact ⟨(hset _ _ _).order _, rfl⟩
  · exact ⟨((hset _ _ _).order _).order _, rfl⟩

theorem progresses_afterSteps (h : Dwells d d') (u : ExecutionUnit) (a : Activity StepNote Bool)
    (s : Surroundings) : Progresses d (e.afterSteps u (a.proceed s) d') := by
  have habsorb := h.absorb StepNote.transition_toNote a s
  unfold afterSteps
  split
  · exact progresses_beginRelease habsorb u _
  · refine { habsorb.pauseBody _ _ with seeks := ?_ }
    unfold pauseBody callBody
    dsimp only
    split
    · split <;> rfl
    · rfl

theorem progresses_afterGrace (h : Dwells d d') (u : ExecutionUnit) (ending : Ending JobStatus)
    (cut : Bool) : Progresses d (afterGrace u ending cut d') := by
  have hdrop := h.order (.drop .grace)
  unfold afterGrace
  split
  · exact progresses_endBody hdrop _
  · exact progresses_endBody (hdrop.see rfl) _
  · exact progresses_endBody hdrop _
  · refine { (hdrop.edit (g := fun x => { x with body := .releasing u ending (.cutting cut) })
      fun _ => ⟨rfl, rfl, rfl⟩).cutRelease with seeks := ?_ }
    unfold cutRelease
    dsimp only
    split <;> rfl

theorem progresses_afterCut (h : Progresses d d') (u : ExecutionUnit) (ending : Ending JobStatus)
    (cut : Bool) : Progresses d (e.afterCut u ending cut d') := by
  have hdwells := h.toDwells
  unfold afterCut
  split
  · exact progresses_endBody hdwells _
  · split
    · exact progresses_endBody hdwells _
    · exact progresses_endBody (hdwells.see rfl) _
    · exact progresses_endBody (hdwells.see rfl) _
    · exact h

/-- A body that has its unit keeps the state of the job. -/
theorem progresses_bodyTurn (e : Engine) (hs : d.flight.body.seeks = false) :
    Progresses (d.edit fun x => { x with bodyCall := .idle }) (e.bodyTurn d) := by
  have hrefl := Dwells.refl (d.edit fun x => { x with bodyCall := .idle })
  unfold bodyTurn
  dsimp only
  split
  · rename_i hb
    rw [hb] at hs
    cases hs
  · rename_i hb
    rw [hb] at hs
    cases hs
  · exact progresses_afterSteps hrefl _ _ _
  · exact progresses_afterGrace hrefl _ _ _
  · exact progresses_afterCut { hrefl with seeks := hs } _ _ _
  · exact { hrefl with seeks := hs }

end Engine

/-! ## Body, worker and state -/

/-- How far the body has got agrees with what the worker does and with the state of the job. -/
def Body.Suits (post : Post) (state : JobState) : Body → Prop
  | .fresh => post = .watching ∧ state = .queued
  | .acquiring next => post ≠ .away ∧ state = .provisioning ∧ (Activity.wait 0 next).Yields
  | .stepping .. | .releasing .. => post ≠ .away → state = .running
  | .ended ending =>
    post ≠ .away → state = .running ∨ state = .provisioning ∧ ending ≠ .done .success

/-- The turn that a body has to have before its worker has one: its first, or that in which its
acquisition is interrupted. -/
def Body.dueCall? (post : Post) : Body → Option Call
  | .fresh => some .called
  | .acquiring _ => if post = .watching then none else some .cut
  | _ => none

namespace Body

variable {b : Body} {post : Post} {state : JobState}

theorem Suits.of_running (hb : b.seeks = false) : b.Suits post .running := by
  cases b with
  | fresh => cases hb
  | acquiring next => cases hb
  | stepping u next => exact fun _ => rfl
  | releasing u ending hold => exact fun _ => rfl
  | ended ending => exact fun _ => .inl rfl

theorem Suits.of_away (hb : b.seeks = false) : b.Suits .away state := by
  cases b with
  | fresh => cases hb
  | acquiring next => cases hb
  | stepping u next => exact fun hp => absurd rfl hp
  | releasing u ending hold => exact fun hp => absurd rfl hp
  | ended ending => exact fun hp => absurd rfl hp

/-- A worker leaves no body that has not got its unit yet. -/
theorem Suits.seeks_of_away (h : b.Suits .away state) : b.seeks = false := by
  cases b with
  | fresh => cases h.1
  | acquiring next => exact absurd rfl h.1
  | _ => rfl

/-- A body that its worker watched owes a turn only once it is interrupted in its acquisition. -/
theorem dueCall_preempting {cause : Cause} {call : Call} (h : b.dueCall? .watching = none)
    (hcall : b.dueCall? (.preempting cause) = some call) : call = .cut ∧ b.isOver = false := by
  cases b with
  | fresh => cases h
  | acquiring next =>
    cases hcall
    exact ⟨rfl, rfl⟩
  | _ => cases hcall

theorem dueCall_ne_idle {call : Call} (h : b.dueCall? post = some call) : call ≠ .idle := by
  cases b with
  | fresh =>
    cases h
    simp
  | acquiring next =>
    replace h : (if post = .watching then none else some Call.cut) = some call := h
    split at h
    · cases h
    · cases h
      simp
  | _ => cases h

theorem dueCall_of_seeks (h : b.seeks = false) : b.dueCall? post = none := by
  cases b <;> first | rfl | cases h

/-- A worker goes from watching the job to waiting for its interrupted body. -/
theorem Suits.preempting (h : b.Suits .watching state) (hdue : b.dueCall? .watching = none)
    (cause : Cause) : b.Suits (.preempting cause) state := by
  cases b with
  | fresh => cases hdue
  | acquiring next => exact ⟨by simp, h.2⟩
  | stepping u next => exact fun _ => h (by simp)
  | releasing u ending hold => exact fun _ => h (by simp)
  | ended ending => exact fun _ => h (by simp)

/-- From where its body has left it, a job can end with the status of the body, or without
success. -/
theorem Suits.next (h : b.Suits post state) (hp : post ≠ .away) (hb : b.seeks = false)
    {status : JobStatus}
    (hstatus : b = .ended (.done status) ∨ status ≠ .success) : state.Next (.ended status) := by
  cases b with
  | fresh => cases hb
  | acquiring next => cases hb
  | stepping u next => exact h hp ▸ .finish status
  | releasing u ending hold => exact h hp ▸ .finish status
  | ended ending =>
    rcases h hp with hstate | ⟨hstate, hending⟩
    · exact hstate ▸ .finish status
    · refine hstate ▸ .giveUp fun hsuccess => hending ?_
      rcases hstatus with hbody | hne
      · rw [(Body.ended.inj hbody), hsuccess]
      · exact absurd hsuccess hne

/-- A body that owes no turn still acquires its unit only as long as its worker watches it. -/
theorem seeks_of_dueCall (h : b.dueCall? post = none) (hp : post ≠ .watching) :
    b.seeks = false := by
  cases b with
  | fresh => cases h
  | acquiring next =>
    rw [dueCall?, if_neg hp] at h
    cases h
  | _ => rfl

end Body

/-- After a turn of the body, it agrees with the worker and the state of the job, which has got
there step by step; the body owes no other turn. -/
structure Desk.Staged (post : Post) (ns : List Note) (d : Desk) : Prop where
  walk : Walk d.flight.job.id d.flight.state (transitionsAmong (ns ++ d.notes))
  body : d.flight.body.Suits post d.flight.state
  due : d.flight.body.dueCall? post = none

namespace Engine

open Desk

variable {e : Engine} {d : Desk} {ns : List Note} {post : Post}

/-- As long as the state is left alone, it has been reached in the same way. -/
theorem walk_of_dwells {d' : Desk} (h : Dwells d d') {state : JobState}
    (hwalk : Walk d.flight.job.id state (transitionsAmong (ns ++ d.notes))) :
    Walk d'.flight.job.id state (transitionsAmong (ns ++ d'.notes)) := by
  rw [h.job, transitionsAmong_append, h.transitions, ← transitionsAmong_append]
  exact hwalk

/-- The first turn in the steps: the job is running. -/
theorem staged_beginSteps (hwalk : Walk d.flight.job.id .provisioning
    (transitionsAmong (ns ++ d.notes)))
    (hstate : d.flight.state = .provisioning) (u : ExecutionUnit) :
    (e.beginSteps u d).Staged post ns := by
  have hprogress : Progresses ((d.see .acquired).move .running) (e.beginSteps u d) :=
    progresses_afterSteps (.refl _) u _ _
  have hmoved : Walk d.flight.job.id .running
      (transitionsAmong (ns ++ ((d.see .acquired).move .running).notes)) := by
    have hnotes : transitionsAmong (ns ++ ((d.see .acquired).move .running).notes) =
        transitionsAmong (ns ++ d.notes) ++ [(d.flight.job.id, .provisioning, .running)] := by
      show transitionsAmong (ns ++ ((d.notes ++ [.acquired]) ++ [.moved _ d.flight.state _])) = _
      rw [hstate, ← List.append_assoc, ← List.append_assoc, transitionsAmong_append,
        transitionsAmong_append (ns ++ d.notes)]
      exact congrArg (· ++ _) (List.append_nil _)
    rw [hnotes]
    exact hwalk.step .run
  have hrunning : (e.beginSteps u d).flight.state = .running := hprogress.state
  refine ⟨?_, ?_, Body.dueCall_of_seeks hprogress.seeks⟩
  · rw [hrunning]
    exact walk_of_dwells hprogress.toDwells hmoved
  · rw [hrunning]
    exact .of_running hprogress.seeks

theorem dwells_refuse {d' : Desk} (h : Dwells d d') (fault : Fault) :
    Dwells d (refuse fault d') :=
  (((h.see rfl).see rfl).edit (g := fun x => { x with steps := x.steps ++ [_] })
    fun _ => ⟨rfl, rfl, rfl⟩).endBody _

/-- A turn in the acquisition. -/
theorem staged_afterAcquire {a : Activity Deed ExecutionUnit} {s : Surroundings}
    (hwalk : Walk d.flight.job.id .provisioning (transitionsAmong (ns ++ d.notes)))
    (hstate : d.flight.state = .provisioning)
    (hrest : ∀ span next, (a.proceed s).rest = .waiting span next →
      post = .watching ∧ (Activity.wait span next).Yields) :
    (e.afterAcquire (a.proceed s) d).Staged post ns := by
  have habsorb : Dwells d (d.absorb (a.proceed s)) :=
    (Dwells.refl d).absorb Deed.transition_toNote a s
  -- Unless the unit is there, the job stays in its provisioning.
  have hstays : ∀ d' : Desk, Dwells d d' → d'.flight.body.Suits post .provisioning →
      d'.flight.body.dueCall? post = none → d'.Staged post ns := by
    intro d' h hsuits hdue
    have hstate' := h.state.trans hstate
    exact ⟨hstate' ▸ walk_of_dwells h hwalk, hstate' ▸ hsuits, hdue⟩
  unfold afterAcquire
  split
  · exact staged_beginSteps (walk_of_dwells habsorb hwalk) hstate _
  · refine hstays _ (dwells_refuse habsorb _) ?_ ?_ <;> unfold refuse <;> rw [endBody_eq]
    · exact fun _ => .inr ⟨rfl, by simp⟩
    · rfl
  · refine hstays _ (habsorb.endBody _) ?_ ?_ <;> rw [endBody_eq]
    · exact fun _ => .inr ⟨rfl, by simp⟩
    · rfl
  · rename_i span next hend
    obtain ⟨hpost, hyields⟩ := hrest span next hend
    have hbody : ((d.absorb (a.proceed s)).pauseBody (.acquiring next) span).flight.body =
        .acquiring next := by
      unfold pauseBody callBody
      dsimp only
      split
      · split <;> rfl
      · rfl
    refine hstays _ (habsorb.pauseBody _ _) ?_ ?_ <;> rw [hbody]
    · exact ⟨by simp [hpost], rfl, hyields⟩
    · exact if_pos hpost

/-- The first turn of the body: the job is provisioned. -/
theorem staged_fresh (hy : ∀ i, (e.provisioner.acquire i).Yields) (hb : d.flight.body = .fresh)
    (hcalled : d.flight.bodyCall = .called) (hpost : d.post = .watching)
    (hstate : d.flight.state = .queued)
    (hwalk : Walk d.flight.job.id .queued (transitionsAmong (ns ++ d.notes))) :
    (e.bodyTurn d).Staged d.post ns := by
  have hturn : e.bodyTurn d =
      e.afterAcquire ((e.provisioner.acquire d.flight.job).proceed d.around)
      ((d.edit fun x => { x with bodyCall := .idle }).move .provisioning) := by
    unfold bodyTurn
    simp [hb, hcalled]
  rw [hturn]
  refine staged_afterAcquire ?_ rfl fun span next hr => ⟨hpost, (hy _).proceed hr⟩
  have hnotes : transitionsAmong
      (ns ++ (d.notes ++ [.moved d.flight.job.id d.flight.state .provisioning])) =
      transitionsAmong (ns ++ d.notes) ++ [(d.flight.job.id, .queued, .provisioning)] := by
    rw [hstate, ← List.append_assoc, transitionsAmong_append (ns ++ d.notes)]
    rfl
  exact hnotes ▸ hwalk.step .provision

/-- A later turn in the acquisition. -/
theorem staged_acquiring {next : Bool → Activity Deed ExecutionUnit}
    (hb : d.flight.body = .acquiring next)
    (hends : ∀ s, ∃ ending, ((next true).proceed s).rest = .ended ending)
    (hgoesOn : (next false).Yields) (hstate : d.flight.state = .provisioning)
    (hdue : d.post ≠ .watching → d.flight.bodyCall = .cut)
    (hwalk : Walk d.flight.job.id .provisioning (transitionsAmong (ns ++ d.notes))) :
    (e.bodyTurn d).Staged d.post ns := by
  have hturn : e.bodyTurn d =
      e.afterAcquire ((next (decide (d.flight.bodyCall = .cut))).proceed d.around)
        (d.edit fun x => { x with bodyCall := .idle }) := by
    unfold bodyTurn
    simp [hb]
  rw [hturn]
  refine staged_afterAcquire hwalk hstate fun span next' hr => ?_
  -- It waits again only if it was not interrupted, and so its worker still watches it.
  have huncut : d.flight.bodyCall ≠ .cut := by
    intro hcut
    obtain ⟨ending, hend⟩ := hends d.around
    rw [hcut, decide_eq_true rfl, hend] at hr
    cases hr
  rw [decide_eq_false huncut] at hr
  refine ⟨?_, hgoesOn.proceed hr⟩
  by_contra hpost
  exact huncut (hdue hpost)

/-- A body that has its unit, or is over, leaves the state alone. -/
theorem staged_of_seeks (hwalk : Walk d.flight.job.id d.flight.state
    (transitionsAmong (ns ++ d.notes)))
    (hs : d.flight.body.seeks = false) (hsuits : (e.bodyTurn d).flight.body.Suits d.post
        d.flight.state) :
    (e.bodyTurn d).Staged d.post ns := by
  have hprogress := progresses_bodyTurn e hs
  have hstate : (e.bodyTurn d).flight.state = d.flight.state := hprogress.state
  refine ⟨?_, hstate ▸ hsuits, Body.dueCall_of_seeks hprogress.seeks⟩
  rw [hstate]
  exact walk_of_dwells hprogress.toDwells hwalk

/-- A body that has its unit suits a job that is running, or that its worker has left. -/
theorem suits_bodyTurn (hs : d.flight.body.seeks = false)
    (hrunning : d.post ≠ .away → d.flight.state = .running) :
    (e.bodyTurn d).flight.body.Suits d.post d.flight.state := by
  have hseeks := (progresses_bodyTurn e hs).seeks
  by_cases hp : d.post = .away
  · rw [hp]
    exact .of_away hseeks
  · rw [hrunning hp]
    exact .of_running hseeks

/-- **What a turn of the body makes of the state**: it provisions the job in its first turn, and
runs it when it has the unit; apart from that it leaves the state alone. -/
theorem staged_bodyTurn (hy : ∀ i, (e.provisioner.acquire i).Yields) (hn : d.notes = [])
    (ho : d.orders = [])
    (hwalk : Walk d.flight.job.id d.flight.state (transitionsAmong ns))
    (hbody : d.flight.body.Suits d.post d.flight.state)
    (hdue : ∀ call, d.flight.body.dueCall? d.post = some call → d.flight.bodyCall = call) :
    (e.bodyTurn d).Staged d.post ns := by
  have hnotes : ns ++ d.notes = ns := by rw [hn, List.append_nil]
  rw [← hnotes] at hwalk
  cases hb : d.flight.body with
  | fresh =>
    rw [hb] at hbody hdue
    obtain ⟨hpost, hstate⟩ := hbody
    exact staged_fresh hy hb (hdue .called rfl) hpost hstate (hstate ▸ hwalk)
  | acquiring next =>
    rw [hb] at hbody hdue
    obtain ⟨-, hstate, hends, hgoesOn⟩ := hbody
    exact staged_acquiring hb hends hgoesOn hstate (fun hp => hdue .cut (if_neg hp))
      (hstate ▸ hwalk)
  | stepping u next =>
    have hs : d.flight.body.seeks = false := by rw [hb]; rfl
    rw [hb] at hbody
    exact staged_of_seeks hwalk hs (suits_bodyTurn hs hbody)
  | releasing u ending hold =>
    have hs : d.flight.body.seeks = false := by rw [hb]; rfl
    rw [hb] at hbody
    exact staged_of_seeks hwalk hs (suits_bodyTurn hs hbody)
  | ended ending =>
    have hstays := (e.works_bodyTurn hn ho).stays (by rw [hb]; rfl)
    exact staged_of_seeks hwalk (by rw [hb]; rfl) (hstays ▸ hbody)

theorem state_preempt (e : Engine) (cause : Cause) (d : Desk) :
    (e.preempt cause d).flight.state = d.flight.state := by
  unfold preempt
  split
  · rfl
  · dsimp only
    rw [cutBody_eq]
    rfl

/-- A body that is not over is interrupted. -/
theorem bodyCall_preempt (e : Engine) (cause : Cause) (h : d.flight.body.isOver = false) :
    (e.preempt cause d).flight.bodyCall = .cut := by
  unfold preempt
  split
  · rename_i hb
    rw [hb] at h
    cases h
  · dsimp only
    rw [cutBody_eq]
    rfl

/-- A worker that watched a job ends it with the status of its body, or interrupts the body. -/
theorem state_afterWatching (e : Engine) (cut : Bool) (d : Desk) :
    (e.afterWatching cut d).2 = .stay ∧ (e.afterWatching cut d).1.flight.state = d.flight.state ∧
        (d.flight.body.isOver = false → (e.afterWatching cut d).1.flight.bodyCall = .cut) ∨
      ∃ status, d.flight.body = .ended (.done status) ∧ (e.afterWatching cut d).2 =
      .free status ∧
        (e.afterWatching cut d).1.flight.state = .ended status := by
  have hpreempt : ∀ (cause : Cause) (d' : Desk), d'.flight.state = d.flight.state →
      d'.flight.body = d.flight.body → (e.preempt cause d').flight.state = d.flight.state ∧
        (d.flight.body.isOver = false → (e.preempt cause d').flight.bodyCall = .cut) :=
    fun cause d' hstate hbody => ⟨(e.state_preempt cause d').trans hstate,
      fun h => e.bodyCall_preempt cause (hbody ▸ h)⟩
  unfold afterWatching
  dsimp only
  split
  · exact .inl ⟨rfl, hpreempt _ _ rfl rfl⟩
  · split
    · rename_i status hbody
      exact .inr ⟨status, hbody, rfl, rfl⟩
    · split
      · exact .inl ⟨rfl, hpreempt _ _ rfl rfl⟩
      · exact .inl ⟨rfl, hpreempt _ _ rfl rfl⟩
    · exact .inl ⟨rfl, hpreempt _ _ rfl rfl⟩
    · split
      · exact .inl ⟨rfl, hpreempt _ _ rfl rfl⟩
      · exact .inl ⟨rfl, hpreempt _ _ rfl rfl⟩

/-- A worker that waited for an interrupted body ends the job with the status that its cause
has. -/
theorem state_afterPreempting (e : Engine) (cause : Cause) (cut : Bool) (d : Desk) :
    (e.afterPreempting cause cut d).2 = .stop ∧
        (e.afterPreempting cause cut d).1.flight.state = d.flight.state ∨
      ∃ status, cause.status? = some status ∧ (e.afterPreempting cause cut d).2 = .free status ∧
        (e.afterPreempting cause cut d).1.flight.state = .ended status := by
  unfold afterPreempting
  dsimp only
  split
  · exact .inl ⟨rfl, rfl⟩
  · cases cause.status? with
    | some status => exact .inr ⟨status, rfl, rfl, rfl⟩
    | none => cases preemptionMessage d.flight.body <;> exact .inl ⟨rfl, rfl⟩

end Engine

/-- Who is interrupted has no success. -/
theorem Cause.status_ne_success {cause : Cause} {status : JobStatus} (h : cause.status? =
    some status) :
    status ≠ .success := by
  cases cause <;> cases h <;> simp

theorem transitions_logs {ns : List Note} (h : ∀ n ∈ ns, ∃ level message, n =
    .log level message) :
    transitionsAmong ns = [] := by
  refine transitionsAmong_eq_nil fun n hn => ?_
  obtain ⟨level, message, rfl⟩ := h n hn
  rfl

end Conveyor
