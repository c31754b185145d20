import Conveyor.Proofs.Schedule.Awaiting
import Conveyor.Proofs.Step.Starts

/-!
# The equipment of jobs

What is started of a job is started in its own unit, and with its own environment. Nothing that
happens in other flights, or that earlier steps did, has a part in it.

- `Desk.Rests`, `Desk.Furthers`: what a turn of the body started, and where it left the body.
- `Engine.proceeds_bodyTurn`: **what a turn of the body can do about the steps**.
- `Lane.Equipped`: what was started of a flight, and what is left of its steps;
  `Lane.Equipped.passes`.
- `Floor.Open.equipped_leads`: **so it is at every moment of a schedule**.
-/

namespace Conveyor

variable {σ : Type}

open Activity

theorem startsAmong_of_quiet {ns : List Note} (ms : List Note) (h : ∀ n ∈ ns, n.quiet = true) :
    startsAmong (ms ++ ns) = startsAmong ms := by
  refine startsAmong_quiet ms fun n hn => ?_
  have hquiet := h n hn
  cases n <;> first | rfl | cases hquiet

/-! ## Turns of the body -/

/-- The body has not come to the steps yet. -/
def Body.BeforeSteps : Body → Prop
  | .fresh | .acquiring _ => True
  | _ => False

namespace Desk

/-- Nothing was started in a turn, and the body is not in the steps. -/
structure Rests (d : Desk) : Prop where
  starts : startsAmong d.notes = []
  body : ∀ u next, d.flight.body ≠ .stepping u next

/-- What was started and recorded in a turn was so in a stretch of the steps in a unit; and if
the body is still in the steps, then where the stretch left them. -/
structure Furthers (u : ExecutionUnit) (s : Stretch StepNote Bool) (d : Desk) : Prop where
  starts : startsAmong d.notes = startsAmong s.notes
  recorded : recordedAmong d.notes = recordedAmong s.notes
  around : d.around = s.around
  body : ∀ v next, d.flight.body = .stepping v next → v = u ∧ ∃ span, s.rest = .waiting span next

variable {d : Desk}

theorem rests_endBody (h : startsAmong d.notes = []) (ending : Ending JobStatus) :
    (d.endBody ending).Rests := by
  rw [endBody_eq]
  exact ⟨h, fun u next hbody => by cases hbody⟩

theorem starts_log (h : startsAmong d.notes = []) (level : LogLevel) (message : Text) :
    startsAmong (d.log level message).notes = [] :=
  (startsAmong_quiet _ (by simp [Note.begins])).trans h

theorem recorded_see (n : Note) (hn : n.quiet = true) (d : Desk) :
    recordedAmong (d.see n).notes = recordedAmong d.notes := by
  show recordedAmong (d.notes ++ [n]) = _
  have hnone : recordedAmong [n] = [] := recordedAmong_quiet (by simpa using hn)
  rw [recordedAmong_append, hnone, List.append_nil]

theorem recorded_endBody (ending : Ending JobStatus) (d : Desk) :
    recordedAmong (d.endBody ending).notes = recordedAmong d.notes := by rw [endBody_eq]

theorem pauseBody_eq (state : Body) (span : Nat) (d : Desk) :
    (d.pauseBody state span).notes = d.notes ∧ (d.pauseBody state span).around = d.around ∧
      (d.pauseBody state span).flight.body = state := by
  unfold pauseBody callBody
  dsimp only
  split
  · split <;> exact ⟨rfl, rfl, rfl⟩
  · exact ⟨rfl, rfl, rfl⟩

theorem rests_pauseBody (h : startsAmong d.notes = []) {state : Body} (hstate : ∀ u next, state ≠
    .stepping u next)
    (span : Nat) : (d.pauseBody state span).Rests := by
  obtain ⟨hnotes, -, hbody⟩ := pauseBody_eq state span d
  refine ⟨?_, ?_⟩
  · rw [hnotes]
    exact h
  · rw [hbody]
    exact hstate

end Desk

namespace Engine

open Desk

variable {e : Engine} {d : Desk}

/-- What a turn of the body can do about the steps. -/
inductive Proceeds (e : Engine) (d d' : Desk) : Prop
  /-- Nothing is recorded then but that there is no unit, and that only before the steps. -/
  | rests (rests : d'.Rests) (recorded : d.flight.body.BeforeSteps ∨ recordedAmong d'.notes = [])
  /-- A unit was acquired, and the first stretch of the steps runs in it. -/
  | begins {u : ExecutionUnit} {s : Surroundings} (outside : d.flight.body.BeforeSteps)
      (acquired : (e.provisioner.acquire d.flight.job).Ends (.done u)) (now : s.now =
          d.around.now)
      (furthers : d'.Furthers u
          (((e.context u).runSteps d.flight.job.env d.flight.job.steps).proceed s))
  /-- The next stretch of the steps runs. -/
  | continues {u : ExecutionUnit} {next : Bool → Activity StepNote Bool} {cut : Bool}
      (stepping : d.flight.body = .stepping u next)
      (furthers : d'.Furthers u ((next cut).proceed d.around))

theorem furthers_afterSteps (h : startsAmong d.notes = []) (hr : recordedAmong d.notes = [])
    (u : ExecutionUnit) (s : Stretch StepNote Bool) : (e.afterSteps u s d).Furthers u s := by
  have hstarts : startsAmong (d.absorb s).notes = startsAmong s.notes := by
    show startsAmong (d.notes ++ s.notes) = _
    rw [startsAmong_append, h, List.nil_append]
  have hrecorded : recordedAmong (d.absorb s).notes = recordedAmong s.notes := by
    show recordedAmong (d.notes ++ s.notes) = _
    rw [recordedAmong_append, hr, List.nil_append]
  unfold afterSteps
  split
  · unfold beginRelease
    dsimp only
    split
    · exact ⟨hstarts, hrecorded, rfl, fun v next hbody => by cases hbody⟩
    · exact ⟨hstarts, hrecorded, rfl, fun v next hbody => by cases hbody⟩
  · rename_i span next hrest
    obtain ⟨hnotes, haround, hbody⟩ := pauseBody_eq (.stepping u next) span (d.absorb s)
    refine ⟨?_, ?_, haround, fun v next' hstepping => ?_⟩
    · rw [hnotes]
      exact hstarts
    · rw [hnotes]
      exact hrecorded
    · rw [hbody] at hstepping
      cases hstepping
      exact ⟨rfl, span, hrest⟩

theorem rests_refuse (h : startsAmong d.notes = []) (fault : Fault) :
    (refuse fault d).Rests := by
  refine rests_endBody ?_ _
  exact (startsAmong_quiet _ (by simp [Note.begins])).trans (starts_log h _ _)

/-- After a stretch of the acquisition, the steps begin in the unit, or the body rests. -/
theorem rests_or_furthers_afterAcquire (h : startsAmong d.notes = [])
    (hr : recordedAmong d.notes = []) {a : Activity Deed ExecutionUnit}
    (ha : ∀ ending, a.Ends ending → (e.provisioner.acquire d.flight.job).Ends ending) :
    (e.afterAcquire (a.proceed d.around) d).Rests ∨
      ∃ u s, (e.provisioner.acquire d.flight.job).Ends (.done u) ∧ s.now = d.around.now ∧
        (e.afterAcquire (a.proceed d.around) d).Furthers u
          (((e.context u).runSteps d.flight.job.env d.flight.job.steps).proceed s) := by
  have hstarts : startsAmong (d.absorb (a.proceed d.around)).notes = [] :=
    (startsAmong_outside _ (a.outside_proceed d.around)).trans h
  unfold afterAcquire
  split
  · rename_i u hend
    have hacquired : a.Ends (.done u) := ends_of_proceed (s := d.around) (by rw [hend])
    refine .inr ⟨u, _, ha _ hacquired, a.proceed_now d.around, furthers_afterSteps ?_ ?_ u _⟩
    · show startsAmong ((d.absorb (a.proceed d.around)).notes ++ [.acquired] ++ [.moved _ _ _]) =
        []
      rw [startsAmong_quiet _ (by simp [Note.begins]),
        startsAmong_quiet _ (by simp [Note.begins])]
      exact hstarts
    · show recordedAmong ((d.absorb (a.proceed d.around)).notes ++ [.acquired] ++
        [.moved _ _ _]) = []
      rw [recordedAmong_append, recordedAmong_append]
      simp [absorb, hr, recordedAmong_outside (a.outside_proceed d.around), recordedAmong]
  · exact .inl (rests_refuse hstarts _)
  · exact .inl (rests_endBody hstarts _)
  · exact .inl (rests_pauseBody hstarts (fun _ _ hbody => by cases hbody) _)

theorem rests_afterGrace (h : startsAmong d.notes = []) (u : ExecutionUnit)
    (ending : Ending JobStatus)
    (cut : Bool) : (afterGrace u ending cut d).Rests := by
  have hdrop : startsAmong (d.dropTimer .grace).notes = [] := h
  unfold afterGrace
  split
  · exact rests_endBody hdrop _
  · exact rests_endBody (starts_log hdrop _ _) _
  · exact rests_endBody hdrop _
  · unfold cutRelease
    dsimp only
    split
    · exact ⟨hdrop, fun _ _ hbody => by cases hbody⟩
    · exact ⟨hdrop, fun _ _ hbody => by cases hbody⟩

theorem recorded_afterGrace (u : ExecutionUnit) (ending : Ending JobStatus) (cut : Bool)
    (d : Desk) :
    recordedAmong (afterGrace u ending cut d).notes = recordedAmong d.notes := by
  unfold afterGrace
  split
  · exact recorded_endBody ..
  · exact (recorded_endBody ..).trans (recorded_see _ rfl _)
  · exact recorded_endBody ..
  · unfold cutRelease
    dsimp only
    split <;> rfl

theorem recorded_afterCut (u : ExecutionUnit) (ending : Ending JobStatus) (cut : Bool)
    (d : Desk) :
    recordedAmong (e.afterCut u ending cut d).notes = recordedAmong d.notes := by
  unfold afterCut
  split
  · exact recorded_endBody ..
  · split
    · exact recorded_endBody ..
    · exact (recorded_endBody ..).trans (recorded_see _ rfl _)
    · exact (recorded_endBody ..).trans (recorded_see _ rfl _)
    · rfl

theorem rests_afterCut (h : d.Rests) (u : ExecutionUnit) (ending : Ending JobStatus)
    (cut : Bool) :
    (e.afterCut u ending cut d).Rests := by
  unfold afterCut
  split
  · exact rests_endBody h.starts _
  · split
    · exact rests_endBody h.starts _
    · exact rests_endBody (starts_log h.starts _ _) _
    · exact rests_endBody (starts_log h.starts _ _) _
    · exact h

/-- **What a turn of the body can do about the steps.** -/
theorem proceeds_bodyTurn (hn : d.notes = [])
    (hacquiring : ∀ next, d.flight.body = .acquiring next →
        ∀ cut ending, (next cut).Ends ending →
      (e.provisioner.acquire d.flight.job).Ends ending) :
    e.Proceeds d (e.bodyTurn d) := by
  have hstarts : startsAmong (d.edit fun x => { x with bodyCall := .idle }).notes = [] := by
    show startsAmong d.notes = []
    rw [hn]
    rfl
  have hrecorded : recordedAmong (d.edit fun x => { x with bodyCall := .idle }).notes = [] := by
    show recordedAmong d.notes = []
    rw [hn]
    rfl
  unfold bodyTurn
  dsimp only
  split
  · rename_i hbody
    have houtside : d.flight.body.BeforeSteps := by simp [hbody, Body.BeforeSteps]
    split
    · exact .rests (rests_endBody hstarts _) (.inl houtside)
    · have hmoved : startsAmong ((d.edit fun x => { x with bodyCall := .idle }).move
          .provisioning).notes = [] :=
        (startsAmong_quiet _ (by simp [Note.begins])).trans hstarts
      rcases rests_or_furthers_afterAcquire hmoved ((recorded_see _ rfl _).trans hrecorded)
          (e := e)
        (fun _ => id) with hrests | ⟨u, s, hu, hs, hfurthers⟩
      · exact .rests hrests (.inl houtside)
      · exact .begins houtside hu hs hfurthers
  · rename_i next hbody
    have houtside : d.flight.body.BeforeSteps := by simp [hbody, Body.BeforeSteps]
    rcases rests_or_furthers_afterAcquire hstarts hrecorded (hacquiring next hbody _) with
      hrests | ⟨u, s, hu, hs, hfurthers⟩
    · exact .rests hrests (.inl houtside)
    · exact .begins houtside hu hs hfurthers
  · rename_i u next hbody
    exact .continues hbody (furthers_afterSteps hstarts hrecorded u _)
  · exact .rests (rests_afterGrace hstarts _ _ _)
      (.inr ((recorded_afterGrace ..).trans hrecorded))
  · rename_i hbody
    refine .rests (rests_afterCut ⟨hstarts, fun u next hstepping => ?_⟩ _ _ _)
      (.inr ((recorded_afterCut ..).trans hrecorded))
    rw [show d.flight.body = _ from hstepping] at hbody
    cases hbody
  · rename_i hbody
    refine .rests ⟨hstarts, fun u next hstepping => ?_⟩ (.inr hrecorded)
    rw [show d.flight.body = _ from hstepping] at hbody
    cases hbody

end Engine

/-! ## Lanes -/

/-- Nothing was started of a job, or what was started is what the steps start in a unit that was
acquired for it. -/
def JobInstance.EquippedBy (e : Engine) (i : JobInstance) (ns : List Note) : Prop :=
  startsAmong ns = [] ∨ ∃ u, (e.provisioner.acquire i).Ends (.done u) ∧ u.Equips i ns

theorem JobInstance.EquippedBy.congr {e : Engine} {i : JobInstance} {ns ns' : List Note}
    (h : i.EquippedBy e ns) (hstarts : startsAmong ns' = startsAmong ns) :
    i.EquippedBy e ns' := by
  rcases h with hnone | ⟨u, hu, hequips⟩
  · exact .inl (hstarts.trans hnone)
  · exact .inr ⟨u, hu, hequips.congr hstarts⟩

/-- What is left of the steps of a job keeps to what they start in a unit; `ms` are the notes of
the steps alone. -/
def Rest.Equips (u : ExecutionUnit) (i : JobInstance) (rest : Rest StepNote Bool) (time : Nat)
    (ms : List Note) : Prop :=
  rest.Keeps (fun _ ns => u.Equips i ns) (fun _ ns _ => u.Equips i ns) time ms

/-- Wherever the steps are left, they have kept to it so far. -/
theorem Rest.Equips.now {u : ExecutionUnit} {i : JobInstance} {rest : Rest StepNote Bool}
    {time : Nat}
    {ms : List Note} (h : rest.Equips u i time ms) : u.Equips i ms := by
  cases rest with
  | ended ending => exact h
  | waiting span next => exact h.1

namespace Lane

variable {e : Engine} {v v' : Lane} {d : Desk}

/-- What was started of the job in flight is what its steps start in a unit, and while the body
is in the steps, what is left of them keeps to that. -/
structure Equipped (e : Engine) (v : Lane) : Prop where
  starts : v.flight.job.EquippedBy e v.notes
  stepping : ∀ u next, v.flight.body = .stepping u next →
      (e.provisioner.acquire v.flight.job).Ends (.done u) ∧
    ∃ ms, startsAmong ms = startsAmong v.notes ∧
      (Rest.waiting 0 next).Equips u v.flight.job v.around.now ms

/-- Time may pass, and what starts nothing may be seen. -/
theorem Equipped.congr (h : v.Equipped e) (hjob : v'.flight.job = v.flight.job)
    (hbody : v'.flight.body = v.flight.body) (hstarts : startsAmong v'.notes =
        startsAmong v.notes)
    (hnow : v.around.now ≤ v'.around.now) : v'.Equipped e := by
  refine ⟨?_, fun u next hstepping => ?_⟩
  · rw [hjob]
    exact h.starts.congr hstarts
  · rw [hbody] at hstepping
    obtain ⟨hu, ms, hms, hequips⟩ := h.stepping u next hstepping
    rw [hjob]
    exact ⟨hu, ms, hms.trans hstarts.symm, Rest.Keeps.later id hnow hequips⟩

/-- What a desk that is put back leaves of a lane. -/
theorem left_put (hf : v.desk.Fits d) :
    (v.put d).flight.job = v.flight.job ∧ (v.put d).flight.body = d.flight.body ∧
      (v.put d).around.now = v.around.now := by
  rw [put_eq]
  exact ⟨(job_heard ..).trans hf.job, body_heard .., hf.now⟩

/-- Before the steps, neither was anything started nor recorded. -/
theorem Sound.blank (h : v.Sound e []) (hb : v.flight.body.BeforeSteps) : Blank v.notes := by
  have hsound := h.body
  rw [List.nil_append] at hsound
  cases hbody : v.flight.body with
  | fresh =>
    rw [hbody] at hsound
    exact hsound
  | acquiring next =>
    rw [hbody] at hsound
    exact hsound.1
  | _ =>
    rw [hbody] at hb
    cases hb

/-- A body that rests starts nothing. -/
theorem Equipped.put_rests (h : v.Equipped e) (hf : v.desk.Fits d) (hd : d.Rests) :
    (v.put d).Equipped e := by
  obtain ⟨hjob, hbody, -⟩ := left_put hf
  refine ⟨?_, fun u next hstepping => ?_⟩
  · rw [hjob]
    refine h.starts.congr ?_
    rw [notes_put, startsAmong_append, hd.starts, List.append_nil]
  · rw [hbody] at hstepping
    exact absurd hstepping (hd.body u next)

/-- A stretch of the steps starts what they start in the unit; `ms` are the notes of the steps
before it. -/
theorem equipped_furthers {u : ExecutionUnit} {a : Activity StepNote Bool} {s : Surroundings}
    (ms : List Note) (hf : v.desk.Fits d) (hu : (e.provisioner.acquire v.flight.job).Ends
        (.done u))
    (hms : startsAmong ms = startsAmong v.notes) (hnow : s.now = v.around.now)
    (ha : a.Keeps (fun _ ns => u.Equips v.flight.job ns) (fun _ ns _ => u.Equips v.flight.job ns)
        s.now ms)
    (hd : d.Furthers u (a.proceed s)) : (v.put d).Equipped e := by
  obtain ⟨hjob, hbody, htime⟩ := left_put hf
  have hrest : (a.proceed s).rest.Equips u v.flight.job s.now (ms ++ (a.proceed s).notes) :=
    ha.proceed
  have hstarts : startsAmong (ms ++ (a.proceed s).notes) = startsAmong (v.put d).notes := by
    rw [notes_put, startsAmong_append, startsAmong_append, hms, hd.starts]
  refine ⟨?_, fun v' next hstepping => ?_⟩
  · rw [hjob]
    exact .inr ⟨u, hu, hrest.now.congr hstarts.symm⟩
  · rw [hbody] at hstepping
    obtain ⟨rfl, span, hwaiting⟩ := hd.body v' next hstepping
    rw [hwaiting] at hrest
    rw [hjob, htime, ← hnow]
    exact ⟨hu, _, hstarts, hrest⟩

/-- **A turn of the body starts what the steps start in the unit.** -/
theorem Equipped.bodyTurn (h : v.Equipped e) (hs : v.Sound e []) :
    (v.put (e.bodyTurn v.desk)).Equipped e := by
  have hf : v.desk.Fits (e.bodyTurn v.desk) := e.fits_cueTurn rfl rfl hs.idle .body
  have hacquiring : ∀ next, v.flight.body = .acquiring next →
      ∀ cut ending, (next cut).Ends ending →
      (e.provisioner.acquire v.flight.job).Ends ending := by
    intro next hbody
    have hsound := hs.body
    rw [hbody] at hsound
    exact hsound.2
  cases e.proceeds_bodyTurn (d := v.desk) rfl hacquiring with
  | rests rests recorded => exact h.put_rests hf rests
  | @begins u s outside acquired now furthers =>
    -- Before the steps begin, nothing was started.
    have hnone : startsAmong v.notes = [] := by
      rw [← List.map_eq_nil_iff, map_startsAmong]
      exact (hs.blank outside).begun
    have hstarts : startsAmong [] = [] := rfl
    exact equipped_furthers [] hf acquired hnone.symm now
      (StepContext.keeps_runSteps_starts (e.context u) v.flight.job hstarts) furthers
  | continues stepping furthers =>
    -- The continuation is run with an answer and at a time of which it promised to keep to the
    -- steps.
    obtain ⟨hu, ms, hms, -, hkeeps⟩ := h.stepping _ _ stepping
    exact equipped_furthers ms hf hu hms rfl (hkeeps _ _ (Nat.le_refl _)) furthers

/-- **Every move keeps a flight equipped.** -/
theorem Equipped.passes (h : v.Equipped e) (hs : v.Sound e []) (hp : v.Passes e v') :
    v'.Equipped e := by
  have hjob := (hp.same hs.idle).1
  have hnow := hp.now_le hs.idle
  cases hp with
  | @own i rest ready =>
    have hpop : { v with ready := rest }.Equipped e := ⟨h.starts, h.stepping⟩
    have hspop : { v with ready := rest }.Sound e [] := ⟨hs.idle, hs.steps, hs.body⟩
    cases i with
    | cue c =>
      by_cases hc : c = .body
      · subst hc
        exact hpop.bodyTurn hspop
      · -- Other cues spare the body, and what they note starts nothing.
        have hspares := Desk.spares_cueTurn e (d := v.desk) rfl hc
        refine h.congr hjob ?_ ?_ hnow
        · show (Lane.put (e.cueTurn c v.desk) { v with ready := rest }).flight.body = _
          rw [put_eq]
          exact (body_heard ..).trans hspares.body
        · show startsAmong (Lane.put (e.cueTurn c v.desk) { v with ready := rest }).notes = _
          rw [notes_put]
          exact startsAmong_of_quiet _ hspares.notes
    | worker =>
      by_cases hpost : v.post = .away
      · show ({ v with ready := rest }.workerTurn e).Equipped e
        rw [workerTurn_away e (v := { v with ready := rest }) hpost]
        exact ⟨h.starts, h.stepping⟩
      · refine h.congr hjob (body_workerTurn e (v := { v with ready := rest }) hpost) ?_ hnow
        show startsAmong ({ v with ready := rest }.workerTurn e).notes = _
        rw [notes_workerTurn e (v := { v with ready := rest }) hpost]
        exact startsAmong_of_quiet _ (tends_tend e (v := { v with ready := rest })
          hpost).spares.notes
  | other now canceled =>
    refine h.congr hjob ?_ ?_ hnow
    · rw [moveTo_eq]
      exact body_heard ..
    · rw [moveTo_eq]
      rfl
  | cut =>
    obtain ⟨call, items, hcut, -⟩ := v.cut_eq
    rw [hcut]
    exact ⟨h.starts, h.stepping⟩
  | round ready now later timeout => exact h.congr rfl rfl rfl hnow

theorem equipped_launched (e : Engine) (i : JobInstance) (w : Nat) (s : Surroundings) :
    (launched i w s).Equipped e :=
  ⟨.inl rfl, fun u next hbody => by cases hbody⟩

end Lane

namespace Floor

variable {e : Engine} {fl m : Floor σ} {jobs : List JobInstance}

/-- **At every moment of a schedule, what was started of its jobs is what their steps start in
their units.** -/
theorem Open.equipped_leads (ho : fl.Open e) (hl : e.Leads (e.staff jobs fl) m) {f : Nat}
    {v : Lane}
    (hf : fl.flights.length ≤ f) (hv : m.lane? f = some v) : v.Equipped e := by
  refine ho.lanes_leads (Lane.equipped_launched e) (fun f u u' hf hfine hp hu => ?_) hl hf hv
  exact hu.passes (hfine.sound_new hf) hp

end Floor

end Conveyor
