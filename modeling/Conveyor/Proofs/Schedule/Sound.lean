import Conveyor.Proofs.Schedule.Runs
import Conveyor.Proofs.Step.Running

/-!
# Sound bodies

What was seen of a flight says how far its body can have got, and the other way round: before a
unit is acquired nothing is recorded, in the steps the notes are a course of them, and how the
body ends is how its steps ended, or how the acquisition failed.

- `Note.quiet`: what tells nothing of that.
- `Body.Finished`, `Body.Sound`: a body that is over, and any body, agrees with the notes.
- `Desk.Tracks`: the desk keeps the results that were seen, and heeds the cancellation.
- `Engine.sound_bodyTurn`: **a turn of the body leaves a sound body**, and begins no script once
  the run is canceled.
- `Lane.Sound.passes`: every move keeps a lane sound.
-/

namespace Conveyor

open Activity

/-! ## Notes -/

/-- The note tells nothing of units, scripts and results of steps. -/
def Note.quiet : Note → Bool
  | .recorded _ | .began .. | .acquired => false
  | _ => true

theorem Note.quiet_of_outside {n : Note} (h : n.outside = true) : n.quiet = true := by
  cases n <;> first | rfl | cases h

theorem Note.quiet_of_ofWorker {n : Note} (h : n.ofWorker = true) : n.quiet = true := by
  cases n <;> first | rfl | cases h

theorem recordedAmong_quiet {ns : List Note} (h : ∀ n ∈ ns, n.quiet = true) :
    recordedAmong ns = [] := by
  fun_induction recordedAmong ns with
  | case1 => rfl
  | case2 r rest ih => simp [Note.quiet] at h
  | case3 n rest hn ih => exact ih fun m hm => h m (List.mem_cons_of_mem n hm)

theorem begunAmong_quiet {ns : List Note} (h : ∀ n ∈ ns, n.quiet = true) :
    begunAmong ns = [] := by
  fun_induction begunAmong ns with
  | case1 => rfl
  | case2 script env rest ih => simp [Note.quiet] at h
  | case3 n rest hn ih => exact ih fun m hm => h m (List.mem_cons_of_mem n hm)

/-- Quiet notes are no scripts. -/
theorem heeds_of_quiet {ns : List Note} (h : ∀ n ∈ ns, n.quiet = true) (c : Bool) :
    Heeds c ns := by
  refine heeds_of_not_begins (fun n hn => ?_) c
  have hq := h n hn
  cases n <;> first | rfl | cases hq

/-- Nothing was acquired, begun or recorded. -/
structure Blank (ns : List Note) : Prop where
  recorded : recordedAmong ns = []
  begun : begunAmong ns = []
  acquired : .acquired ∉ ns

theorem Blank.append {ns : List Note} (h : Blank ns) {ms : List Note} (hms : ∀ n ∈ ms,
    n.quiet = true) :
    Blank (ns ++ ms) := by
  refine ⟨?_, ?_, fun hmem => ?_⟩
  · rw [recordedAmong_append, h.recorded, recordedAmong_quiet hms, List.append_nil]
  · rw [begunAmong_append, h.begun, begunAmong_quiet hms, List.append_nil]
  · rcases List.mem_append.1 hmem with hn | hn
    · exact h.acquired hn
    · exact absurd (hms _ hn) (by simp [Note.quiet])

/-! ## Bodies -/

/-- How a body can be over, given the notes. -/
inductive Body.Finished (e : Engine) (i : JobInstance) (c : Bool) (ns : List Note) :
    Ending JobStatus → Prop
  /-- It was interrupted before it had a unit. -/
  | gone (blank : Blank ns) : Finished e i c ns .interrupted
  /-- It got no unit. -/
  | refused {fault : Fault} (acquire : (e.provisioner.acquire i).Ends (.failed fault))
      (recorded : recordedAmong ns = [.unprovisioned i fault]) (begun : begunAmong ns = [])
      (acquired : .acquired ∉ ns) : Finished e i c ns (.done .failed)
  /-- It ends as its steps did. -/
  | ran {ending : Ending Bool} (course : OffCourse i.steps c ns ending) :
      Finished e i c ns (ending.map Engine.statusOf)
  /-- Its steps were over, and it was interrupted before its unit was released. -/
  | broken {ending : Ending Bool} (course : OffCourse i.steps c ns ending) :
      Finished e i c ns .interrupted

/-- A body agrees with the notes. While it is in the steps, `ms` are the notes of these alone. -/
def Body.Sound (e : Engine) (i : JobInstance) (c : Bool) (ns : List Note) : Body → Prop
  | .fresh => Blank ns
  | .acquiring next => Blank ns ∧
    ∀ cut ending, (next cut).Ends ending → (e.provisioner.acquire i).Ends ending
  | .stepping _ next =>
    ∃ ms, recordedAmong ms = recordedAmong ns ∧ begunAmong ms = begunAmong ns ∧
    (Rest.waiting 0 next).Upholds (OnCourse i.steps) (OffCourse i.steps) c ms
  | .releasing _ ending _ => ∃ steps, OffCourse i.steps c ns steps ∧
    ending = steps.map Engine.statusOf
  | .ended ending => Finished e i c ns ending

/-- Only the results and the scripts matter to a course that is over. -/
theorem OffCourse.congr {steps : List StepSpec} {c c' : Bool} {ns ns' : List Note}
    {ending : Ending Bool} (h : OffCourse steps c ns ending) (hc : c = true → c' = true)
    (hr : recordedAmong ns' = recordedAmong ns) (hb : begunAmong ns' = begunAmong ns) :
    OffCourse steps c' ns' ending := by
  refine ⟨?_, fun fault he hf => hc (h.2 fault he hf)⟩
  rw [hr, hb]
  exact h.1

section

variable {e : Engine} {i : JobInstance} {c c' : Bool} {ns ms : List Note}

/-- Nothing that is quiet makes a body unsound, nor does the cancellation of the run. -/
theorem Body.Sound.later {b : Body} (h : b.Sound e i c ns) (hc : c = true → c' = true)
    (hms : ∀ n ∈ ms, n.quiet = true) : b.Sound e i c' (ns ++ ms) := by
  have hr : recordedAmong (ns ++ ms) = recordedAmong ns := by
    rw [recordedAmong_append, recordedAmong_quiet hms, List.append_nil]
  have hb : begunAmong (ns ++ ms) = begunAmong ns := by
    rw [begunAmong_append, begunAmong_quiet hms, List.append_nil]
  cases b with
  | fresh => exact Blank.append h hms
  | acquiring next => exact ⟨h.1.append hms, h.2⟩
  -- What the steps recorded and began is not touched, and a cancellation only makes the demand
  -- weaker.
  | stepping u next =>
    obtain ⟨own, hro, hbo, hon, hnext⟩ := h
    exact ⟨own, hro.trans hr.symm, hbo.trans hb.symm, hon,
      fun cut c'' hc'' => hnext cut c'' fun ht => hc'' (hc ht)⟩
  | releasing u ending hold =>
    obtain ⟨steps, hoff, rfl⟩ := h
    exact ⟨steps, hoff.congr hc hr hb, rfl⟩
  | ended ending =>
    cases h with
    | gone blank => exact .gone (blank.append hms)
    | refused acquire recorded begun acquired =>
      refine .refused acquire (hr.trans recorded) (hb.trans begun) fun hmem => ?_
      rcases List.mem_append.1 hmem with hn | hn
      · exact acquired hn
      · exact absurd (hms _ hn) (by simp [Note.quiet])
    | ran course => exact .ran (course.congr hc hr hb)
    | broken course => exact .broken (course.congr hc hr hb)

end

/-! ## Desks -/

/-- A desk keeps the results that were seen, before the turn and in it; in the turn no script
begins once the run is canceled. -/
structure Desk.Tracks (c : Bool) (ns : List Note) (d : Desk) : Prop where
  steps : d.flight.steps = recordedAmong (ns ++ d.notes)
  heeds : Heeds c d.notes
  canceled : d.around.canceled = canceledAfter c d.notes

/-- A desk keeps the results that were seen, and its body agrees with the notes. -/
structure Desk.Sound (e : Engine) (c : Bool) (ns : List Note) (d : Desk) : Prop
    extends d.Tracks c ns where
  body : d.flight.body.Sound e d.flight.job d.around.canceled (ns ++ d.notes)

namespace Desk

variable {c : Bool} {ns : List Note} {d : Desk}

theorem Tracks.edit (h : Tracks c ns d) {g : Flight → Flight} (hg : ∀ x, (g x).steps = x.steps) :
    Tracks c ns (d.edit g) :=
  { h with steps := (hg d.flight).trans h.steps }

theorem Tracks.order (h : Tracks c ns d) (o : Order) : Tracks c ns (d.order o) := { h with }

/-- Seeing something that is neither a result, nor a script, nor the cancellation of the run. -/
theorem Tracks.see (h : Tracks c ns d) {n : Note} (hr : recordedAmong [n] = [])
    (hb : n.begins = false) (hn : n ≠ .canceled) : Tracks c ns (d.see n) := by
  refine ⟨?_, ?_, ?_⟩
  · show d.flight.steps = recordedAmong (ns ++ (d.notes ++ [n]))
    rw [← List.append_assoc, recordedAmong_append, hr, List.append_nil]
    exact h.steps
  · exact (heeds_append c d.notes [n]).2 ⟨h.heeds, heeds_of_not_begins (by simp [hb]) _⟩
  · show d.around.canceled = canceledAfter c (d.notes ++ [n])
    rw [canceledAfter_append, ← h.canceled]
    simp [canceledAfter, hn.symm]

theorem Tracks.log (h : Tracks c ns d) (level : LogLevel) (message : Text) :
    Tracks c ns (d.log level message) := h.see rfl rfl (by simp)

theorem Tracks.move (h : Tracks c ns d) (target : JobState) : Tracks c ns (d.move target) :=
  (h.see rfl rfl (by simp)).edit fun _ => rfl

/-- A stretch of activity that heeds the cancellation. -/
theorem Tracks.absorb {ν α : Type} [NoteKind ν] (h : Tracks c ns d) {a : Activity ν α}
    (hh : Heeds d.around.canceled (a.proceed d.around).notes) :
    Tracks c ns (d.absorb (a.proceed d.around)) := by
  refine ⟨?_, ?_, ?_⟩
  · show d.flight.steps ++ _ = recordedAmong (ns ++ (d.notes ++ _))
    rw [← List.append_assoc, recordedAmong_append, ← h.steps]
  · rw [h.canceled] at hh
    exact (heeds_append c _ _).2 ⟨h.heeds, hh⟩
  · show (a.proceed d.around).around.canceled = canceledAfter c (d.notes ++ _)
    rw [canceledAfter_append, ← h.canceled]
    exact a.proceed_canceled_eq d.around

/-- A stretch of a party outside the engine. -/
theorem Tracks.absorb_outside {α : Type} (h : Tracks c ns d) (a : Activity Deed α) :
    Tracks c ns (d.absorb (a.proceed d.around)) :=
  h.absorb (heeds_of_not_begins (fun n hn =>
    Note.begins_of_outside (a.outside_proceed d.around n hn)) _)

theorem Sound.edit {e : Engine} (h : Sound e c ns d) {g : Flight → Flight}
    (hg : ∀ x, (g x).steps = x.steps ∧ (g x).job = x.job ∧ (g x).body = x.body) :
    Sound e c ns (d.edit g) := by
  obtain ⟨hsteps, hjob, hbody⟩ := hg d.flight
  refine { h with steps := hsteps.trans h.steps, body := ?_ }
  show Body.Sound e (g d.flight).job _ _ (g d.flight).body
  rw [hjob, hbody]
  exact h.body

theorem Sound.order {e : Engine} (h : Sound e c ns d) (o : Order) : Sound e c ns (d.order o) :=
  { h with }

theorem Sound.callBody {e : Engine} (h : Sound e c ns d) : Sound e c ns d.callBody := by
  have hcalled : Sound e c ns (d.edit fun x => { x with bodyCall := .called }) :=
    h.edit fun _ => ⟨rfl, rfl, rfl⟩
  unfold Desk.callBody
  split
  · exact hcalled.order _
  · exact h

/-- The body waits, in a state that agrees with the notes. -/
theorem Tracks.sound_pauseBody (h : Tracks c ns d) {e : Engine} (state : Body)
    (hs : state.Sound e d.flight.job d.around.canceled (ns ++ d.notes)) (span : Nat) :
    Sound e c ns (d.pauseBody state span) := by
  have hset : Sound e c ns (d.edit fun x => { x with body := state }) :=
    { h.edit (g := fun x => { x with body := state }) fun _ => rfl with body := hs }
  unfold Desk.pauseBody
  split
  · exact hset.callBody
  · exact hset.order _

/-- The body is over, in a way that agrees with the notes. -/
theorem Tracks.sound_endBody (h : Tracks c ns d) {e : Engine} {ending : Ending JobStatus}
    (hs : Body.Finished e d.flight.job d.around.canceled (ns ++ d.notes) ending) :
    Sound e c ns (d.endBody ending) := by
  rw [endBody_eq]
  exact { steps := h.steps, heeds := h.heeds, canceled := h.canceled, body := hs }

theorem Sound.cutRelease {e : Engine} (h : Sound e c ns d) : Sound e c ns d.cutRelease := by
  have hset : Sound e c ns (d.edit fun x => { x with releaseCall := .cut }) :=
    h.edit fun _ => ⟨rfl, rfl, rfl⟩
  have hcut := hset.order (.drop .release)
  unfold Desk.cutRelease
  split
  · exact hcut.order _
  · exact hcut

end Desk

/-! ## The body -/

namespace Engine

open Desk

variable {c : Bool} {ns : List Note} {d : Desk}

/-- When the steps are over, the unit is released. -/
theorem sound_beginRelease (e : Engine) (h : d.Tracks c ns) (u : ExecutionUnit)
    {ending : Ending Bool}
    (hs : OffCourse d.flight.job.steps d.around.canceled (ns ++ d.notes) ending) :
    (e.beginRelease u (ending.map statusOf) d).Sound e c ns := by
  have hset : ∀ (hold : Hold) (call : Call), Desk.Sound e c ns (d.edit fun x =>
      { x with
        body := .releasing u (ending.map statusOf) hold
        release := .fresh (e.provisioner.release u)
        releaseCall := call }) :=
    fun hold call => { h.edit (g := _) fun _ => rfl with body := ⟨ending, hs, rfl⟩ }
  unfold beginRelease
  split
  · exact (hset _ _).order _
  · exact ((hset _ _).order _).order _

/-- A turn in the steps; `ms` are the notes of the steps so far. -/
theorem sound_afterSteps (e : Engine) (h : d.Tracks c ns) (u : ExecutionUnit)
    {a : Activity StepNote Bool} (ms : List Note)
    (hr : recordedAmong ms = recordedAmong (ns ++ d.notes))
    (hb : begunAmong ms = begunAmong (ns ++ d.notes))
    (ha : a.Upholds (OnCourse d.flight.job.steps) (OffCourse d.flight.job.steps)
        d.around.canceled
      ms) :
    (e.afterSteps u (a.proceed d.around) d).Sound e c ns := by
  obtain ⟨hheeds, hrest⟩ := ha.proceed
  have htracks := h.absorb hheeds
  have hr' : recordedAmong (ms ++ (a.proceed d.around).notes) =
      recordedAmong (ns ++ (d.notes ++ (a.proceed d.around).notes)) := by
    rw [← List.append_assoc, recordedAmong_append, recordedAmong_append, hr]
  have hb' : begunAmong (ms ++ (a.proceed d.around).notes) =
      begunAmong (ns ++ (d.notes ++ (a.proceed d.around).notes)) := by
    rw [← List.append_assoc, begunAmong_append, begunAmong_append, hb]
  -- Either all steps are over, and the release begins, or they pause within the same course.
  unfold afterSteps
  split
  · rename_i ending hend
    rw [hend] at hrest
    exact e.sound_beginRelease htracks u (OffCourse.congr hrest id hr'.symm hb'.symm)
  · rename_i span next hend
    rw [hend] at hrest
    exact htracks.sound_pauseBody (.stepping u next) ⟨_, hr', hb', hrest⟩ span

/-- The first turn in the steps. -/
theorem sound_beginSteps (e : Engine) (h : d.Tracks c ns) (hblank : Blank (ns ++ d.notes))
    (u : ExecutionUnit) : (e.beginSteps u d).Sound e c ns := by
  have htracks : ((d.see .acquired).move .running).Tracks c ns :=
    (h.see rfl rfl (by simp)).move .running
  refine e.sound_afterSteps htracks u [] ?_ ?_
    ((e.context u).upholds_runSteps rfl _ _ _ rfl rfl)
  · have hr : recordedAmong (ns ++ ((d.notes ++ [.acquired]) ++
        [.moved d.flight.job.id d.flight.state .running])) = [] := by
      rw [← List.append_assoc, ← List.append_assoc, recordedAmong_append, recordedAmong_append,
        hblank.recorded]
      rfl
    exact hr.symm
  · have hb : begunAmong (ns ++ ((d.notes ++ [.acquired]) ++
        [.moved d.flight.job.id d.flight.state .running])) = [] := by
      rw [← List.append_assoc, ← List.append_assoc, begunAmong_append, begunAmong_append,
        hblank.begun]
      rfl
    exact hb.symm

/-- The acquisition failed. -/
theorem sound_refuse (e : Engine) (h : d.Tracks c ns) (hblank : Blank (ns ++ d.notes))
    {fault : Fault}
    (hends : (e.provisioner.acquire d.flight.job).Ends (.failed fault)) :
    (refuse fault d).Sound e c ns := by
  have hlog := h.log .error
    ("Job " ++ d.flight.job.id ++ " provisioning failed: " ++ fault.message)
  have hquiet : ∀ n ∈ [Note.log .error
      ("Job " ++ d.flight.job.id ++ " provisioning failed: " ++ fault.message)], n.quiet =
      true := by
    simp [Note.quiet]
  have hnotes := hblank.append hquiet
  -- The one record is the failure to get a unit, since nothing was recorded before.
  have hr : recordedAmong (ns ++ ((d.notes ++ [.log .error ("Job " ++ d.flight.job.id ++
      " provisioning failed: " ++ fault.message)]) ++ [.recorded (.unprovisioned d.flight.job
      fault)])) =
      [.unprovisioned d.flight.job fault] := by
    rw [← List.append_assoc, ← List.append_assoc, recordedAmong_append, hnotes.recorded]
    rfl
  refine Tracks.sound_endBody ⟨?_, ?_, ?_⟩ (.refused hends hr ?_ ?_)
  · show d.flight.steps ++ [_] = _
    rw [h.steps, hblank.recorded]
    exact hr.symm
  · exact (heeds_append c _ _).2 ⟨hlog.heeds, heeds_of_not_begins (by simp [Note.begins]) _⟩
  · show d.around.canceled = canceledAfter c (_ ++ _)
    rw [canceledAfter_append, ← hlog.canceled]
    simp [canceledAfter, Desk.log, Desk.see]
  · show begunAmong (ns ++ ((d.notes ++ [_]) ++ [_])) = []
    rw [← List.append_assoc, ← List.append_assoc, begunAmong_append, hnotes.begun]
    rfl
  · show Note.acquired ∉ ns ++ ((d.notes ++ [_]) ++ [_])
    rw [← List.append_assoc, ← List.append_assoc]
    simpa using hnotes.acquired

/-- A turn in the acquisition. -/
theorem sound_afterAcquire (e : Engine) (h : d.Tracks c ns) (hblank : Blank (ns ++ d.notes))
    {a : Activity Deed ExecutionUnit}
    (ha : ∀ ending, a.Ends ending → (e.provisioner.acquire d.flight.job).Ends ending) :
    (e.afterAcquire (a.proceed d.around) d).Sound e c ns := by
  have htracks := h.absorb_outside a
  have hblank' : Blank (ns ++ (d.absorb (a.proceed d.around)).notes) := by
    show Blank (ns ++ (d.notes ++ _))
    rw [← List.append_assoc]
    exact hblank.append fun n hn => Note.quiet_of_outside (a.outside_proceed d.around n hn)
  unfold afterAcquire
  split
  · exact e.sound_beginSteps htracks hblank' _
  · rename_i fault hend
    refine e.sound_refuse htracks hblank' (ha _ (ends_of_proceed (s := d.around) ?_))
    rw [hend]
  · exact htracks.sound_endBody (.gone hblank')
  · rename_i span next hend
    refine htracks.sound_pauseBody (.acquiring next) ⟨hblank', fun cut ending hends => ?_⟩ span
    refine ha _ (ends_of_proceed (s := d.around) ?_)
    rw [hend]
    exact ⟨cut, hends⟩

/-- A log entry changes nothing about a course. -/
theorem offCourse_log {steps : List StepSpec} {ms : List Note} {ending : Ending Bool}
    (hs : OffCourse steps c (ns ++ ms) ending) (level : LogLevel) (message : Text) :
    OffCourse steps c (ns ++ (ms ++ [.log level message])) ending := by
  rw [← List.append_assoc]
  refine hs.congr id ?_ ?_
  · rw [recordedAmong_append]
    exact List.append_nil _
  · rw [begunAmong_append]
    exact List.append_nil _

/-- The body goes on after waiting for a release within its grace period. -/
theorem sound_afterGrace (e : Engine) (h : d.Tracks c ns) (u : ExecutionUnit)
    {ending : Ending Bool}
    (hs : OffCourse d.flight.job.steps d.around.canceled (ns ++ d.notes) ending) (cut : Bool) :
    (afterGrace u (ending.map statusOf) cut d).Sound e c ns := by
  have hdrop := h.order (.drop .grace)
  unfold afterGrace
  split
  · exact hdrop.sound_endBody (.ran hs)
  · exact (hdrop.log _ _).sound_endBody (.ran (offCourse_log hs _ _))
  · exact hdrop.sound_endBody (.broken hs)
  · refine Sound.cutRelease ?_
    exact { hdrop.edit (g := fun x =>
        { x with body := .releasing u (ending.map statusOf) (.cutting cut) }) fun _ => rfl with
      body := ⟨ending, hs, rfl⟩ }

/-- The body goes on after waiting for a release that was interrupted. -/
theorem sound_afterCut (e : Engine) (h : d.Tracks c ns) {u : ExecutionUnit}
    {ending : Ending Bool}
    {hold : Hold} (hbody : d.flight.body = .releasing u (ending.map statusOf) hold)
    (hs : OffCourse d.flight.job.steps d.around.canceled (ns ++ d.notes) ending) (cut : Bool) :
    (e.afterCut u (ending.map statusOf) cut d).Sound e c ns := by
  unfold afterCut
  split
  · exact h.sound_endBody (.broken hs)
  · split
    · exact h.sound_endBody (.ran hs)
    · exact (h.log _ _).sound_endBody (.ran (offCourse_log hs _ _))
    · exact (h.log _ _).sound_endBody (.ran (offCourse_log hs _ _))
    · refine { h with body := ?_ }
      rw [hbody]
      exact ⟨ending, hs, rfl⟩

/-- **A turn of the body leaves a sound body.** -/
theorem sound_bodyTurn (e : Engine) (hn : d.notes = []) (hc : d.around.canceled = c)
    (hsteps : d.flight.steps = recordedAmong ns)
    (hbody : d.flight.body.Sound e d.flight.job c ns) : (e.bodyTurn d).Sound e c ns := by
  have hidle : (d.edit fun x => { x with bodyCall := .idle }).Tracks c ns := by
    refine ⟨?_, ?_, ?_⟩
    · show d.flight.steps = recordedAmong (ns ++ d.notes)
      rw [hn, List.append_nil]
      exact hsteps
    · show Heeds c d.notes
      rw [hn]
      trivial
    · show d.around.canceled = canceledAfter c d.notes
      rw [hn, canceledAfter_nil]
      exact hc
  have hnotes : ns ++ d.notes = ns := by rw [hn, List.append_nil]
  rw [← hnotes, ← hc] at hbody
  unfold bodyTurn
  dsimp only
  split
  · rename_i hb
    rw [hb] at hbody
    split
    · exact hidle.sound_endBody (.gone hbody)
    · refine e.sound_afterAcquire (hidle.move .provisioning) ?_ fun _ => id
      show Blank (ns ++ (d.notes ++ [_]))
      rw [← List.append_assoc]
      exact Blank.append hbody (by simp [Note.quiet])
  · rename_i next hb
    rw [hb] at hbody
    exact e.sound_afterAcquire hidle hbody.1 (hbody.2 _)
  · rename_i u next hb
    rw [hb] at hbody
    obtain ⟨ms, hr, hbg, -, hnext⟩ := hbody
    exact e.sound_afterSteps hidle u ms hr hbg (hnext _ _ id)
  · rename_i u ending hb
    rw [hb] at hbody
    obtain ⟨steps, hoff, rfl⟩ := hbody
    exact e.sound_afterGrace hidle u hoff _
  · rename_i u ending passOn hb
    rw [hb] at hbody
    obtain ⟨steps, hoff, rfl⟩ := hbody
    exact e.sound_afterCut hidle hb hoff _
  · exact { hidle with body := hbody }

end Engine

/-! ## Other turns -/

namespace Desk

/-- A turn leaves the body and its results alone. -/
structure Spares (d d' : Desk) : Prop where
  job : d'.flight.job = d.flight.job
  body : d'.flight.body = d.flight.body
  steps : d'.flight.steps = d.flight.steps
  notes : ∀ n ∈ d'.notes, n.quiet = true

namespace Spares

variable {d d' : Desk}

theorem refl (hn : d.notes = []) : Spares d d := ⟨rfl, rfl, rfl, by simp [hn]⟩

theorem edit (h : Spares d d') {g : Flight → Flight}
    (hg : ∀ x, (g x).job = x.job ∧ (g x).body = x.body ∧ (g x).steps = x.steps) :
    Spares d (d'.edit g) := by
  obtain ⟨hjob, hbody, hsteps⟩ := hg d'.flight
  exact ⟨hjob.trans h.job, hbody.trans h.body, hsteps.trans h.steps, h.notes⟩

theorem see (h : Spares d d') {n : Note} (hn : n.quiet = true) : Spares d (d'.see n) := by
  refine { h with notes := fun m hm => ?_ }
  rcases List.mem_append.1 hm with hm | hm
  · exact h.notes m hm
  · rw [List.mem_singleton.1 hm]
    exact hn

theorem order (h : Spares d d') (o : Order) : Spares d (d'.order o) := { h with }

theorem absorb {α : Type} (h : Spares d d') (a : Activity Deed α) (s : Surroundings) :
    Spares d (d'.absorb (a.proceed s)) := by
  have hquiet : ∀ n ∈ (a.proceed s).notes, n.quiet = true :=
    fun n hn => Note.quiet_of_outside (a.outside_proceed s n hn)
  refine { h with steps := ?_, notes := fun n hn => ?_ }
  · show d'.flight.steps ++ recordedAmong (a.proceed s).notes = d.flight.steps
    rw [recordedAmong_quiet hquiet, List.append_nil]
    exact h.steps
  · rcases List.mem_append.1 hn with hn | hn
    · exact h.notes n hn
    · exact hquiet n hn

theorem callBody (h : Spares d d') : Spares d d'.callBody := by
  have hcalled : Spares d (d'.edit fun x => { x with bodyCall := .called }) :=
    h.edit fun _ => ⟨rfl, rfl, rfl⟩
  unfold Desk.callBody
  split
  · exact hcalled.order _
  · exact h

theorem callRelease (h : Spares d d') : Spares d d'.callRelease := by
  have hcalled : Spares d (d'.edit fun x => { x with releaseCall := .called }) :=
    h.edit fun _ => ⟨rfl, rfl, rfl⟩
  unfold Desk.callRelease
  split
  · exact hcalled.order _
  · exact h

theorem endRelease (h : Spares d d') (ending : Ending Unit) :
    Spares d (d'.endRelease ending) := by
  have hended : ∀ d'' : Desk, Spares d d'' →
      Spares d ((d''.edit fun x => { x with release := .ended ending }).push .releaseOver) := by
    intro d'' h''
    have hset : Spares d (d''.edit fun x => { x with release := .ended ending }) :=
      h''.edit fun _ => ⟨rfl, rfl, rfl⟩
    exact hset.order _
  unfold Desk.endRelease
  split
  · exact hended _ (h.see rfl)
  · exact hended _ h

theorem afterRelease (h : Spares d d') (a : Activity Deed Unit) (s : Surroundings) :
    Spares d (d'.afterRelease (a.proceed s)) := by
  have habsorb := h.absorb a s
  unfold Desk.afterRelease
  split
  · exact habsorb.endRelease _
  · rename_i span next hrest
    have hset : Spares d ((d'.absorb (a.proceed s)).edit fun x =>
        { x with release := .waiting next }) :=
      habsorb.edit fun _ => ⟨rfl, rfl, rfl⟩
    unfold Desk.pauseRelease
    split
    · exact hset.callRelease
    · exact hset.order _

end Spares

theorem spares_releaseTurn {d : Desk} (hn : d.notes = []) : Spares d d.releaseTurn := by
  have hidle : Spares d (d.edit fun x => { x with releaseCall := .idle }) :=
    (Spares.refl hn).edit fun _ => ⟨rfl, rfl, rfl⟩
  unfold releaseTurn
  dsimp only
  split
  · split
    · exact hidle.endRelease _
    · exact (hidle.see rfl).afterRelease _ _
  · exact hidle.afterRelease _ _
  · exact hidle

theorem spares_callWorker {d : Desk} (hn : d.notes = []) (vigil : Vigil) :
    Spares d (d.callWorker vigil) := by
  unfold callWorker
  split
  · exact { Spares.refl hn with }
  · exact Spares.refl hn

/-- All turns but those of the body leave it alone. -/
theorem spares_cueTurn (e : Engine) {d : Desk} (hn : d.notes = []) {c : Cue} (hc : c ≠ .body) :
    Spares d (e.cueTurn c d) := by
  have hrefl := Spares.refl hn
  have hcued := e.cued_cueTurn c d
  generalize e.cueTurn c d = d' at hcued
  cases hcued with
  | body => exact absurd rfl hc
  | release => exact spares_releaseTurn hn
  | watches => exact hrefl.edit fun _ => ⟨rfl, rfl, rfl⟩
  | endsWatch =>
    have hset : Spares d (d.edit fun x => { x with watch := .ended }) :=
      hrefl.edit fun _ => ⟨rfl, rfl, rfl⟩
    exact hset.order _
  | callsBody => exact hrefl.callBody
  | callsRelease => exact hrefl.callRelease
  | callsWorker _ vigil => exact spares_callWorker hn vigil
  | nothing => exact hrefl

theorem Tends.spares {e : Engine} {d d' : Desk} (h : Tends e d d') : Spares d d' :=
  ⟨h.job, h.body, h.steps, fun n hn => Note.quiet_of_ofWorker (h.notes n hn)⟩

end Desk

/-! ## Lanes -/

namespace Lane

variable {e : Engine} {past : List Note} {v v' : Lane} {d : Desk}

/-- The body of a flight agrees with what was seen of it, now and in the past. -/
structure Sound (e : Engine) (past : List Note) (v : Lane) : Prop where
  idle : v.post = .away → v.call = .idle
  steps : v.flight.steps = recordedAmong (past ++ v.notes)
  body : v.flight.body.Sound e v.flight.job v.around.canceled (past ++ v.notes)

@[simp] theorem job_heard (c c' : Bool) (x : Flight) : (heard c c' x).job = x.job := by
  unfold heard
  split <;> rfl

@[simp] theorem takenAt_heard (c c' : Bool) (x : Flight) :
    (heard c c' x).takenAt = x.takenAt := by
  unfold heard
  split <;> rfl

@[simp] theorem body_heard (c c' : Bool) (x : Flight) : (heard c c' x).body = x.body := by
  unfold heard
  split <;> rfl

@[simp] theorem steps_heard (c c' : Bool) (x : Flight) : (heard c c' x).steps = x.steps := by
  unfold heard
  split <;> rfl

@[simp] theorem job_put (d : Desk) (v : Lane) : (v.put d).flight.job = d.flight.job := by
  rw [put_eq, job_heard]

@[simp] theorem takenAt_put (d : Desk) (v : Lane) :
    (v.put d).flight.takenAt = d.flight.takenAt := by
  rw [put_eq, takenAt_heard]

@[simp] theorem body_put (d : Desk) (v : Lane) : (v.put d).flight.body = d.flight.body := by
  rw [put_eq, body_heard]

@[simp] theorem notes_put (d : Desk) (v : Lane) : (v.put d).notes = v.notes ++ d.notes := by
  simp [notes, put_eq, Function.comp_def]

/-- A sound desk that is put back leaves a sound lane. -/
theorem sound_put (hf : v.desk.Fits d) (hd : d.Sound e v.around.canceled (past ++ v.notes)) :
    (v.put d).Sound e past := by
  refine ⟨?_, ?_, ?_⟩
  · rw [put_eq]
    exact hf.call
  · rw [notes_put, ← List.append_assoc, ← hd.steps, put_eq]
    exact steps_heard ..
  · rw [notes_put, ← List.append_assoc, put_eq]
    simpa using hd.body

/-- A desk whose body was left alone leaves a sound lane. -/
theorem Sound.put (h : v.Sound e past) (hf : v.desk.Fits d) (hs : v.desk.Spares d) :
    (v.put d).Sound e past := by
  have hr : recordedAmong (past ++ v.notes ++ d.notes) = recordedAmong (past ++ v.notes) := by
    rw [recordedAmong_append _ d.notes, recordedAmong_quiet hs.notes, List.append_nil]
  refine ⟨?_, ?_, ?_⟩
  · rw [put_eq]
    exact hf.call
  · rw [notes_put, ← List.append_assoc, hr, ← h.steps, put_eq, steps_heard]
    exact hs.steps
  · have hcanceled : v.around.canceled = true → d.around.canceled = true := by
      intro ht
      rw [hf.canceled]
      simp [canceledAfter, desk, ht]
    have hlater := h.body.later hcanceled hs.notes
    rw [notes_put, ← List.append_assoc, put_eq]
    simp only [body_heard, job_heard]
    rw [show d.flight.body = v.flight.body from hs.body, show d.flight.job =
      v.flight.job from hs.job]
    exact hlater

/-- **What a turn on a sound flight shows heeds the cancellation, and the flight stays
sound.** -/
theorem Sound.cueTurn (h : v.Sound e past) (c : Cue) :
    Heeds v.around.canceled (e.cueTurn c v.desk).notes ∧
      (v.put (e.cueTurn c v.desk)).Sound e past := by
  have hf : v.desk.Fits (e.cueTurn c v.desk) := e.fits_cueTurn rfl rfl h.idle c
  by_cases hc : c = .body
  · subst hc
    have hd := e.sound_bodyTurn (d := v.desk) rfl rfl h.steps h.body
    exact ⟨hd.heeds, sound_put hf hd⟩
  · have hs := Desk.spares_cueTurn e (d := v.desk) rfl hc
    exact ⟨heeds_of_quiet hs.notes _, h.put hf hs⟩

/-- A turn of the worker keeps a lane sound. -/
theorem Sound.workerTurn (h : v.Sound e past) : (v.workerTurn e).Sound e past := by
  have hidle : v.idled.Sound e past := ⟨fun _ => rfl, h.steps, h.body⟩
  by_cases hp : v.post = .away
  · rw [workerTurn_away e hp]
    exact hidle
  · have htends := v.tends_tend e hp
    have hput := hidle.put (htends.fits hp) htends.spares
    rw [workerTurn_eq e hp, after]
    split
    · exact hput
    · exact ⟨fun _ => rfl, hput.steps, hput.body⟩

/-- **Every move keeps a lane sound.** -/
theorem Sound.passes (h : v.Sound e past) (hp : v.Passes e v') : v'.Sound e past := by
  cases hp with
  | @own i rest ready =>
    have hpop : { v with ready := rest }.Sound e past := ⟨h.idle, h.steps, h.body⟩
    cases i with
    | cue c => exact (hpop.cueTurn c).2
    | worker => exact hpop.workerTurn
  | @other s now canceled =>
    rw [moveTo_eq]
    refine ⟨h.idle, (steps_heard ..).trans h.steps, ?_⟩
    have hlater := h.body.later canceled (List.forall_mem_nil _)
    simp only [body_heard, job_heard]
    rwa [List.append_nil] at hlater
  | cut =>
    obtain ⟨call, items, hcut, hcall, -⟩ := v.cut_eq
    rw [hcut]
    exact ⟨fun ha => (hcall ha).trans (h.idle ha), h.steps, h.body⟩
  | round ready now later timeout => exact ⟨h.idle, h.steps, h.body⟩

/-- A job that was just taken is sound. -/
theorem sound_launched (e : Engine) (i : JobInstance) (w : Nat) (s : Surroundings) :
    (launched i w s).Sound e [] :=
  ⟨fun _ => rfl, rfl, ⟨rfl, rfl, by simp [launched, notes]⟩⟩

end Lane

end Conveyor
