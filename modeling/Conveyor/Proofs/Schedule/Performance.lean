import Conveyor.Proofs.Activity.Headway
import Conveyor.Proofs.Schedule.Equipment

/-!
# What is seen of the steps is what they do

The notes of a flight tell of scripts that were started and of results that were recorded. They
are not only written down: at every moment of a schedule, the steps of the job have really gone
as far as that in a unit that the provisioner gave for it, with every script run by the executor.

- `Engine.steps`: the steps of a job in a unit.
- `Lane.Performed`: what was seen of the steps is how far they have gone, and what is left of
  them.
- `Lane.Performed.passes`: **every move leaves it so**.
- `JobInstance.Performs`: what was seen of a job is how some way for its steps to go begins.
- `Floor.Open.carriedOut_leads`: **so it is at every moment of a schedule**.
-/

namespace Conveyor

variable {σ : Type}

open Activity

/-- The steps of a job in a unit. -/
def Engine.steps (e : Engine) (u : ExecutionUnit) (i : JobInstance) : Activity StepNote Bool :=
  (e.context u).runSteps i.env i.steps

/-- The same scripts were started, and the same results recorded. -/
def SameSteps (ms ns : List Note) : Prop :=
  startsAmong ms = startsAmong ns ∧ recordedAmong ms = recordedAmong ns

theorem SameSteps.append {ms ns ms' ns' : List Note} (h : SameSteps ms ns)
    (h' : SameSteps ms' ns') :
    SameSteps (ms ++ ms') (ns ++ ns') := by
  refine ⟨?_, ?_⟩
  · rw [startsAmong_append, startsAmong_append, h.1, h'.1]
  · rw [recordedAmong_append, recordedAmong_append, h.2, h'.2]

/-- What tells nothing of the steps may be seen. -/
theorem SameSteps.quiet {ms ns ns' : List Note} (h : SameSteps ms ns) (hq : ∀ n ∈ ns',
    n.quiet = true) :
    SameSteps ms (ns ++ ns') := by
  refine ⟨h.1.trans (startsAmong_of_quiet ns hq).symm, ?_⟩
  rw [recordedAmong_append, recordedAmong_quiet hq, List.append_nil]
  exact h.2

/-- The steps of a job have gone so far in a unit that was acquired for it. -/
def JobInstance.PerformedIn (e : Engine) (i : JobInstance) (u : ExecutionUnit) (ns : List Note)
    (c : Bool)
    (rest : Rest StepNote Bool) : Prop :=
  (e.provisioner.acquire i).Ends (.done u) ∧ ∃ ms, (e.steps u i).GoneTo ms c rest ∧
    SameSteps ms ns

namespace Lane

variable {e : Engine} {v v' : Lane} {d : Desk}

/-- What was seen of the steps is how far they have gone, unless none was started; and while the
body is in the steps, it keeps what is left of them. -/
structure Performed (e : Engine) (v : Lane) : Prop where
  seen : startsAmong v.notes = [] ∨ ∃ u c rest, v.flight.job.PerformedIn e u v.notes c rest
  stepping : ∀ u next, v.flight.body = .stepping u next →
    v.flight.job.PerformedIn e u v.notes v.around.canceled (.waiting 0 next)

/-- What tells nothing of the steps may be seen, and others may cancel the run. -/
theorem Performed.quiet (h : v.Performed e) (hjob : v'.flight.job = v.flight.job)
    (hbody : v'.flight.body = v.flight.body) {l : List Note} (hnotes : v'.notes = v.notes ++ l)
    (hq : ∀ n ∈ l, n.quiet = true)
    (hcanceled : v.around.canceled = true → v'.around.canceled = true) : v'.Performed e := by
  refine ⟨?_, fun u next hstepping => ?_⟩
  · rw [hjob, hnotes]
    refine h.seen.imp (startsAmong_of_quiet _ hq).trans ?_
    rintro ⟨u, c, rest, hu, ms, hgone, hsame⟩
    exact ⟨u, c, rest, hu, ms, hgone, hsame.quiet hq⟩
  · rw [hbody] at hstepping
    obtain ⟨hu, ms, hgone, hsame⟩ := h.stepping u next hstepping
    rw [hjob, hnotes]
    exact ⟨hu, ms, hgone.later hcanceled, hsame.quiet hq⟩

/-- A body that rests leaves what was seen of the steps as it is. -/
theorem Performed.put_rests (h : v.Performed e) (hs : v.Sound e []) (hf : v.desk.Fits d)
    (hd : d.Rests)
    (hrecorded : v.flight.body.BeforeSteps ∨ recordedAmong d.notes = []) :
    (v.put d).Performed e := by
  obtain ⟨hjob, hbody, -⟩ := left_put hf
  refine ⟨?_, fun u next hstepping => ?_⟩
  · rw [hjob, notes_put]
    have hstarts : startsAmong (v.notes ++ d.notes) = startsAmong v.notes := by
      rw [startsAmong_append, hd.starts, List.append_nil]
    rcases hrecorded with hbefore | hnone
    · -- Before the steps, nothing was started.
      refine .inl (hstarts.trans ?_)
      rw [← List.map_eq_nil_iff, map_startsAmong]
      exact (hs.blank hbefore).begun
    · refine h.seen.imp hstarts.trans ?_
      rintro ⟨u, c, rest, hu, ms, hgone, hsame⟩
      refine ⟨u, c, rest, hu, ms, hgone, hsame.1.trans hstarts.symm, ?_⟩
      rw [recordedAmong_append, hnone, List.append_nil]
      exact hsame.2
  · rw [hbody] at hstepping
    exact absurd hstepping (hd.body u next)

/-- A stretch of the steps takes them further. -/
theorem performed_furthers {u : ExecutionUnit} {s : Stretch StepNote Bool} {ms : List Note}
    (hf : v.desk.Fits d) (hu : (e.provisioner.acquire v.flight.job).Ends (.done u))
    (hsame : SameSteps ms v.notes)
    (hgone : (e.steps u v.flight.job).GoneTo (ms ++ s.notes) s.around.canceled s.rest)
    (hd : d.Furthers u s) : (v.put d).Performed e := by
  obtain ⟨hjob, hbody, -⟩ := left_put hf
  have hsame' : SameSteps (ms ++ s.notes) (v.put d).notes := by
    rw [notes_put]
    exact hsame.append ⟨hd.starts.symm, hd.recorded.symm⟩
  refine ⟨.inr ⟨u, s.around.canceled, s.rest, ?_⟩, fun u' next hstepping => ?_⟩
  · rw [hjob]
    exact ⟨hu, _, hgone, hsame'⟩
  · rw [hbody] at hstepping
    obtain ⟨rfl, span, hwaiting⟩ := hd.body u' next hstepping
    rw [hwaiting] at hgone
    have haround : (v.put d).around = s.around := by
      rw [put_eq]
      exact hd.around
    rw [hjob, haround]
    exact ⟨hu, _, hgone, hsame'⟩

/-- **A turn of the body takes the steps as far as is seen.** -/
theorem Performed.bodyTurn (h : v.Performed e) (hs : v.Sound e []) :
    (v.put (e.bodyTurn v.desk)).Performed e := by
  have hf : v.desk.Fits (e.bodyTurn v.desk) := e.fits_cueTurn rfl rfl hs.idle .body
  have hacquiring : ∀ next, v.flight.body = .acquiring next →
      ∀ cut ending, (next cut).Ends ending →
      (e.provisioner.acquire v.flight.job).Ends ending := by
    intro next hbody
    have hsound := hs.body
    rw [hbody] at hsound
    exact hsound.2
  cases e.proceeds_bodyTurn (d := v.desk) rfl hacquiring with
  | rests rests recorded => exact h.put_rests hs hf rests recorded
  | @begins u s outside acquired now furthers =>
    have hblank := hs.blank outside
    have hnone : startsAmong v.notes = [] := by
      rw [← List.map_eq_nil_iff, map_startsAmong]
      exact hblank.begun
    have hsame : SameSteps [] v.notes := ⟨hnone.symm, hblank.recorded.symm⟩
    exact performed_furthers hf acquired hsame (goneTo_proceed _ s) furthers
  | continues stepping furthers =>
    obtain ⟨hu, ms, hgone, hsame⟩ := h.stepping _ _ stepping
    exact performed_furthers hf hu hsame (hgone.proceed id _) furthers

/-- **Every move leaves what was seen of the steps what they did.** -/
theorem Performed.passes (h : v.Performed e) (hs : v.Sound e []) (hp : v.Passes e v') :
    v'.Performed e := by
  have hjob := (hp.same hs.idle).1
  have hcanceled := hp.canceled hs.idle
  cases hp with
  | @own i rest ready =>
    have hpop : { v with ready := rest }.Performed e := ⟨h.seen, h.stepping⟩
    have hspop : { v with ready := rest }.Sound e [] := ⟨hs.idle, hs.steps, hs.body⟩
    cases i with
    | cue c =>
      by_cases hc : c = .body
      · subst hc
        exact hpop.bodyTurn hspop
      · -- Other cues spare the body, and what they note tells nothing of the steps.
        have hspares := Desk.spares_cueTurn e (d := v.desk) rfl hc
        refine h.quiet hjob ?_ (notes_put _ { v with ready := rest }) hspares.notes hcanceled
        show (Lane.put (e.cueTurn c v.desk) { v with ready := rest }).flight.body = _
        rw [put_eq]
        exact (body_heard ..).trans hspares.body
    | worker =>
      by_cases hpost : v.post = .away
      · show ({ v with ready := rest }.workerTurn e).Performed e
        rw [workerTurn_away e (v := { v with ready := rest }) hpost]
        exact ⟨h.seen, h.stepping⟩
      · exact h.quiet hjob (body_workerTurn e (v := { v with ready := rest }) hpost)
          (notes_workerTurn e (v := { v with ready := rest }) hpost)
          (tends_tend e (v := { v with ready := rest }) hpost).spares.notes hcanceled
  | other now canceled =>
    refine h.quiet (l := []) hjob ?_ ?_ (List.forall_mem_nil _) hcanceled
    · rw [moveTo_eq]
      exact body_heard ..
    · rw [moveTo_eq, List.append_nil]
      rfl
  | cut =>
    obtain ⟨call, items, hcut, -⟩ := v.cut_eq
    rw [hcut]
    exact ⟨h.seen, h.stepping⟩
  | round ready now later timeout =>
    exact h.quiet (l := []) rfl rfl (List.append_nil _).symm (List.forall_mem_nil _) hcanceled

theorem performed_launched (e : Engine) (i : JobInstance) (w : Nat) (s : Surroundings) :
    (launched i w s).Performed e :=
  ⟨.inl rfl, fun u next hbody => by cases hbody⟩

end Lane

/-! ## Schedules -/

/-- The scripts that were started of a job, and the results that were recorded, are how some way
for its steps to go begins, in a unit that was acquired for it. -/
def JobInstance.Performs (e : Engine) (i : JobInstance) (ns : List Note) : Prop :=
  ∃ u c hs c' ending, (e.provisioner.acquire i).Ends (.done u) ∧
      (e.steps u i).Plays c hs c' ending ∧
    startsAmong ns <+: startsAmong (seenAmong hs) ∧ recordedAmong ns <+:
      recordedAmong (seenAmong hs)

theorem JobInstance.PerformedIn.performs {e : Engine} {i : JobInstance} {u : ExecutionUnit}
    {ns : List Note}
    {c : Bool} {rest : Rest StepNote Bool} (h : i.PerformedIn e u ns c rest) :
    i.Performs e ns := by
  obtain ⟨hu, ms, hgone, hstarts, hrecorded⟩ := h
  obtain ⟨c₀, hs, c', ending, hplays, later, hseen⟩ := hgone.exists_plays
  refine ⟨u, c₀, hs, c', ending, hu, hplays, ?_, ?_⟩
  · rw [← hseen, startsAmong_append, hstarts]
    exact List.prefix_append _ _
  · rw [← hseen, recordedAmong_append, hrecorded]
    exact List.prefix_append _ _

/-- No script of the job was started, or what was seen of it is what its steps do. -/
def JobInstance.CarriedOut (e : Engine) (i : JobInstance) (ns : List Note) : Prop :=
  startsAmong ns = [] ∨ i.Performs e ns

variable {e : Engine} {fl m : Floor σ} {jobs : List JobInstance}

/-- **At every moment of a schedule, what was seen of a job is what its steps do** in a unit that
was acquired for it, unless no script was started. -/
theorem Floor.Open.carriedOut_leads (ho : fl.Open e) (hl : e.Leads (e.staff jobs fl) m) {f : Nat}
    {v : Lane}
    (hf : fl.flights.length ≤ f) (hv : m.lane? f = some v) :
    v.flight.job.CarriedOut e v.notes := by
  have hperformed : v.Performed e := by
    refine ho.lanes_leads (Lane.performed_launched e) (fun f u u' hf hfine hp hu => ?_) hl hf hv
    exact hu.passes (hfine.sound_new hf) hp
  refine hperformed.seen.imp_right ?_
  rintro ⟨u, c, rest, hin⟩
  exact hin.performs

end Conveyor
