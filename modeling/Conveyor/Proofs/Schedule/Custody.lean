import Conveyor.Proofs.Schedule.Summons
import Conveyor.Proofs.Step.Tenancy

/-!
# The custody of a unit

What was seen of the unit of a flight says how far body and release can have got. As long as
there is any grace, the release of an acquired unit starts before the body has its next turn, so
that nobody can interrupt it before it has started.

- `Item.Precedes`: a turn comes before another.
- `Body.Custody`: body and release agree with what was seen of the unit.
- `Engine.custody_bodyTurn`, `Desk.custody_releaseTurn`: **turns of body and release leave it
  so**.
- `Lane.Custody`, `Lane.Custody.passes`: every move keeps it so.
-/

namespace Conveyor

open Activity

/-! ## The order of turns -/

/-- Among some turns to come, one comes before any of another kind. -/
def Item.Precedes (i j : Item) (l : List Item) : Prop := ∃ front back, l = front ++ i :: back ∧
    j ∉ front

namespace Item.Precedes

variable {i j k : Item} {l : List Item}

theorem of_mem (hi : i ∈ l) (hj : j ∉ l) : Precedes i j l := by
  obtain ⟨front, back, rfl⟩ := List.append_of_mem hi
  exact ⟨front, back, rfl, fun hmem => hj (List.mem_append_left _ hmem)⟩

theorem append (h : Precedes i j l) (m : List Item) : Precedes i j (l ++ m) := by
  obtain ⟨front, back, rfl, hj⟩ := h
  exact ⟨front, back ++ m, by simp, hj⟩

theorem tail (h : Precedes i j (k :: l)) (hk : k ≠ i) : Precedes i j l := by
  obtain ⟨front, back, heq, hj⟩ := h
  cases front with
  | nil =>
    cases heq
    exact absurd rfl hk
  | cons m front =>
    cases heq
    exact ⟨front, back, rfl, fun hmem => hj (List.mem_cons_of_mem _ hmem)⟩

theorem head_ne (h : Precedes i j (k :: l)) (hij : i ≠ j) : k ≠ j := by
  rintro rfl
  obtain ⟨front, back, heq, hj⟩ := h
  cases front with
  | nil =>
    cases heq
    exact hij rfl
  | cons m front =>
    cases heq
    exact hj List.mem_cons_self

theorem filter (h : Precedes i j l) {p : Item → Bool} (hp : p i = true) :
    Precedes i j (l.filter p) := by
  obtain ⟨front, back, rfl, hj⟩ := h
  refine ⟨front.filter p, back.filter p, ?_, fun hmem => hj (List.mem_filter.1 hmem).1⟩
  rw [List.filter_append, List.filter_cons_of_pos hp]

end Item.Precedes

/-! ## Bodies and releases -/

/-- Has the release of the unit started? -/
def Release.isBegun : Release → Bool
  | .none | .fresh _ => false
  | _ => true

/-- The release has started, after the last script. -/
def HandedOver (r : Release) (ns : List Note) : Prop :=
  r.isBegun = true ∧ ∃ calls, unitNotes ns = tenancy calls ++ [.releasing]

/-- Body and release agree with what was seen of the unit. While the body is in the steps, `ms`
are the notes of these alone. -/
def Body.Custody (start time : Nat) (r : Release) (ns : List Note) : Body → Prop
  | .fresh => r = .none ∧ unitNotes ns = []
  | .acquiring _ => r = .none ∧ unitNotes ns = []
  | .stepping _ next => r = .none ∧ ∃ ms, recordedAmong ms = recordedAmong ns ∧
    unitNotes ms = unitNotes ns ∧
    (Rest.waiting 0 next).Keeps (Occupied start) (fun t ns _ => Vacant start t ns) time ms
  | .releasing _ _ hold => HandedOver r ns ∨
    hold = .inTime ∧ (∃ act, r = .fresh act) ∧ ∃ calls, unitNotes ns = tenancy calls
  | .ended _ => HandedOver r ns ∨ r = .none ∧ unitNotes ns = []

section

variable {start time time' : Nat} {r r' : Release} {ns ms : List Note}

theorem Paced.append (h : Paced start time ns) (hr : recordedAmong ms = []) :
    Paced start time (ns ++ ms) := by
  refine h.congr ?_
  rw [recordedAmong_append, hr, List.append_nil]

theorem HandedOver.append (h : HandedOver r ns) (hr : r'.isBegun = true)
    (hu : unitNotes ms = []) :
    HandedOver r' (ns ++ ms) := by
  refine ⟨hr, ?_⟩
  rw [unitNotes_append, hu, List.append_nil]
  exact h.2

/-- Time may pass, and other things may be seen. -/
theorem Body.Custody.later {b : Body} (h : b.Custody start time r ns) (ht : time ≤ time')
    (hr : recordedAmong ms = []) (hu : unitNotes ms = []) :
    b.Custody start time' r (ns ++ ms) := by
  have hunit : unitNotes (ns ++ ms) = unitNotes ns := by
    rw [unitNotes_append, hu, List.append_nil]
  have hrecorded : recordedAmong (ns ++ ms) = recordedAmong ns := by
    rw [recordedAmong_append, hr, List.append_nil]
  cases b with
  | fresh => exact ⟨h.1, hunit.trans h.2⟩
  | acquiring next => exact ⟨h.1, hunit.trans h.2⟩
  | stepping u next =>
    obtain ⟨hnone, own, hro, huo, hkeeps⟩ := h
    refine ⟨hnone, own, hro.trans hrecorded.symm, huo.trans hunit.symm, hkeeps.later ?_ ht⟩
    exact fun hq => ⟨hq.1.later ht, hq.2⟩
  | releasing u ending hold =>
    refine h.imp (fun hh => hh.append hh.1 hu) fun hh => ⟨hh.1, hh.2.1, ?_⟩
    rw [hunit]
    exact hh.2.2
  | ended ending => exact h.imp (fun hh => hh.append hh.1 hu) fun hh => ⟨hh.1, hunit.trans hh.2⟩

/-- A release that has started may go on. -/
theorem Body.Custody.proceed {b : Body} (h : b.Custody start time r ns)
    (hbegun : r.isBegun = true)
    (hr' : r'.isBegun = true) : b.Custody start time r' ns := by
  have hne : r ≠ .none := by
    rintro rfl
    cases hbegun
  cases b with
  | fresh => exact absurd h.1 hne
  | acquiring next => exact absurd h.1 hne
  | stepping u next => exact absurd h.1 hne
  | releasing u ending hold =>
    rcases h with hh | ⟨-, ⟨act, rfl⟩, -⟩
    · exact .inl ⟨hr', hh.2⟩
    · cases hbegun
  | ended ending =>
    rcases h with hh | ⟨hnone, -⟩
    · exact .inl ⟨hr', hh.2⟩
    · exact absurd hnone hne

end

/-! ## The body -/

/-- After a turn of the body, it agrees with what was seen; a release that is to start has its
turn before the body. -/
structure Desk.Custody (ns : List Note) (d : Desk) : Prop where
  paced : Paced d.flight.takenAt d.around.now (ns ++ d.notes)
  body : d.flight.body.Custody d.flight.takenAt d.around.now d.flight.release (ns ++ d.notes)
  fresh : ∀ act, d.flight.release = .fresh act →
    d.flight.releaseCall = .called ∧ d.flight.bodyCall = .idle ∧ .cue .release ∈ d.orders

namespace Desk

variable {ns : List Note} {d : Desk}

/-- The body waits. -/
theorem custody_pauseBody (hp : Paced d.flight.takenAt d.around.now (ns ++ d.notes))
    {state : Body}
    (hs : state.Custody d.flight.takenAt d.around.now d.flight.release (ns ++ d.notes))
    (hr : ∀ act, d.flight.release ≠ .fresh act) (span : Nat) :
    (d.pauseBody state span).Custody ns := by
  have hset : ∀ d' : Desk, d'.flight.takenAt = d.flight.takenAt → d'.flight.body = state →
      d'.flight.release = d.flight.release → d'.around = d.around → d'.notes = d.notes →
      d'.Custody ns := by
    intro d' htaken hbody hrelease haround hnotes
    refine ⟨?_, ?_, fun act hact => absurd (hrelease ▸ hact) (hr act)⟩
    · rw [htaken, haround, hnotes]
      exact hp
    · rw [htaken, hbody, hrelease, haround, hnotes]
      exact hs
  unfold pauseBody callBody
  dsimp only
  split
  · split <;> exact hset _ rfl rfl rfl rfl rfl
  · exact hset _ rfl rfl rfl rfl rfl

/-- The body is over. -/
theorem custody_endBody (hp : Paced d.flight.takenAt d.around.now (ns ++ d.notes))
    (hs : HandedOver d.flight.release (ns ++ d.notes) ∨
      d.flight.release = .none ∧ unitNotes (ns ++ d.notes) = []) (ending : Ending JobStatus) :
    (d.endBody ending).Custody ns := by
  rw [endBody_eq]
  refine ⟨hp, hs, fun act hact => ?_⟩
  have hact' : d.flight.release = .fresh act := hact
  rcases hs with hh | ⟨hnone, -⟩
  · have hbegun := hh.1
    rw [hact'] at hbegun
    cases hbegun
  · rw [hnone] at hact'
    cases hact'

end Desk

namespace Engine

open Desk

variable {e : Engine} {ns : List Note} {d : Desk}

/-- When the steps are over, the release is to start. -/
theorem custody_beginRelease (hg : e.graceSeconds.isNonPositive = false)
    (h : Vacant d.flight.takenAt d.around.now (ns ++ d.notes))
    (hidle : d.flight.bodyCall = .idle)
    (u : ExecutionUnit) (ending : Ending JobStatus) :
    (e.beginRelease u ending d).Custody ns := by
  unfold beginRelease
  rw [hg, if_neg Bool.false_ne_true]
  exact ⟨h.1, .inr ⟨rfl, ⟨_, rfl⟩, h.2⟩,
    fun act hact => ⟨rfl, hidle, List.mem_append_right _ List.mem_cons_self⟩⟩

/-- A turn in the steps; `ms` are the notes of the steps so far. -/
theorem custody_afterSteps (hg : e.graceSeconds.isNonPositive = false)
    (hidle : d.flight.bodyCall = .idle)
    (hnone : d.flight.release = .none) (u : ExecutionUnit) {a : Activity StepNote Bool}
    {ms : List Note}
    (hr : recordedAmong ms = recordedAmong (ns ++ d.notes))
    (hu : unitNotes ms = unitNotes (ns ++ d.notes))
    (ha : a.Keeps (Occupied d.flight.takenAt) (fun t ns _ => Vacant d.flight.takenAt t ns)
        d.around.now
      ms) :
    (e.afterSteps u (a.proceed d.around) d).Custody ns := by
  have hrest := ha.proceed
  have hr' : recordedAmong (ns ++ (d.notes ++ (a.proceed d.around).notes)) =
      recordedAmong (ms ++ (a.proceed d.around).notes) := by
    rw [← List.append_assoc, recordedAmong_append _ (a.proceed d.around).notes, ← hr,
      recordedAmong_append]
  have hu' : unitNotes (ns ++ (d.notes ++ (a.proceed d.around).notes)) =
      unitNotes (ms ++ (a.proceed d.around).notes) := by
    rw [← List.append_assoc, unitNotes_append _ (a.proceed d.around).notes, ← hu,
      unitNotes_append]
  have hnow := a.proceed_now d.around
  rw [← hnow] at hrest
  -- The steps are over, and the release is to begin; or they go on, with the unit occupied.
  unfold afterSteps
  split
  · rename_i ending hend
    rw [hend] at hrest
    have hvacant : Vacant d.flight.takenAt (a.proceed d.around).around.now
        (ms ++ (a.proceed d.around).notes) := hrest
    exact custody_beginRelease (d := d.absorb (a.proceed d.around)) hg (hvacant.congr hr' hu')
      hidle u _
  · rename_i span next hend
    rw [hend] at hrest
    have hocc : Occupied d.flight.takenAt (a.proceed d.around).around.now
        (ms ++ (a.proceed d.around).notes) := hrest.1
    refine custody_pauseBody (d := d.absorb (a.proceed d.around)) (hocc.1.congr hr') ?_ ?_ span
    · exact ⟨hnone, _, hr'.symm, hu'.symm, hrest⟩
    · intro act hact
      rw [show (d.absorb (a.proceed d.around)).flight.release = d.flight.release from rfl,
        hnone] at hact
      cases hact

/-- The first turn in the steps. -/
theorem custody_beginSteps (hg : e.graceSeconds.isNonPositive = false)
    (hp : Paced d.flight.takenAt d.around.now (ns ++ d.notes))
    (hidle : d.flight.bodyCall = .idle)
    (hnone : d.flight.release = .none) (hu : unitNotes (ns ++ d.notes) = [])
    (u : ExecutionUnit) :
    (e.beginSteps u d).Custody ns := by
  refine custody_afterSteps (d := (d.see .acquired).move .running) hg hidle hnone u rfl rfl
    (StepContext.keeps_runSteps _ _ _ ⟨?_, [], ?_⟩)
  · show Paced _ _ (ns ++ ((d.notes ++ [.acquired]) ++ [.moved _ _ _]))
    rw [← List.append_assoc, ← List.append_assoc]
    exact (hp.append rfl).append rfl
  · show unitNotes (ns ++ ((d.notes ++ [.acquired]) ++ [.moved _ _ _])) = _
    rw [← List.append_assoc, ← List.append_assoc, unitNotes_append, unitNotes_append, hu]
    rfl

/-- The acquisition failed: that is recorded, and took no time. -/
theorem custody_refuse (hp : Paced d.flight.takenAt d.around.now (ns ++ d.notes))
    (hnone : d.flight.release = .none) (hu : unitNotes (ns ++ d.notes) = []) (fault : Fault) :
    (refuse fault d).Custody ns := by
  unfold refuse
  refine custody_endBody ?_ (.inr ⟨?_, ?_⟩) _
  · show Paced _ _ (ns ++ ((d.notes ++ [.log _ _]) ++ [.recorded _]))
    rw [← List.append_assoc, ← List.append_assoc]
    have hlog : Paced d.flight.takenAt d.around.now (ns ++ d.notes ++ [.log .error
        ("Job " ++ d.flight.job.id ++ " provisioning failed: " ++ fault.message)]) :=
          hp.append rfl
    unfold Paced at hlog ⊢
    rw [recordedAmong_append, spentMs_append]
    exact hlog
  · exact hnone
  · show unitNotes (ns ++ ((d.notes ++ [.log _ _]) ++ [.recorded _])) = []
    rw [← List.append_assoc, ← List.append_assoc, unitNotes_append, unitNotes_append, hu]
    rfl

/-- A turn in the acquisition. -/
theorem custody_afterAcquire (hg : e.graceSeconds.isNonPositive = false)
    (hp : Paced d.flight.takenAt d.around.now (ns ++ d.notes))
    (hidle : d.flight.bodyCall = .idle)
    (hnone : d.flight.release = .none) (hu : unitNotes (ns ++ d.notes) = [])
    (a : Activity Deed ExecutionUnit) : (e.afterAcquire (a.proceed d.around) d).Custody ns := by
  have hout := a.outside_proceed d.around
  have hp' : Paced d.flight.takenAt (a.proceed d.around).around.now
      (ns ++ (d.notes ++ (a.proceed d.around).notes)) := by
    rw [a.proceed_now, ← List.append_assoc]
    exact hp.append (recordedAmong_outside hout)
  have hu' : unitNotes (ns ++ (d.notes ++ (a.proceed d.around).notes)) = [] := by
    rw [← List.append_assoc, unitNotes_append, hu, unitNotes_outside hout]
    rfl
  unfold afterAcquire
  split
  · exact custody_beginSteps (d := d.absorb _) hg hp' hidle hnone hu' _
  · exact custody_refuse (d := d.absorb _) hp' hnone hu' _
  · exact custody_endBody (d := d.absorb _) hp' (.inr ⟨hnone, hu'⟩) _
  · rename_i span next hend
    have hcustody : (Body.acquiring next).Custody d.flight.takenAt
        (a.proceed d.around).around.now
        d.flight.release (ns ++ (d.notes ++ (a.proceed d.around).notes)) := ⟨hnone, hu'⟩
    refine custody_pauseBody (d := d.absorb _) hp' hcustody (fun act hact => ?_) span
    rw [show (d.absorb (a.proceed d.around)).flight.release = d.flight.release from rfl,
      hnone] at hact
    cases hact

/-- The release has started, and the body goes on. -/
theorem custody_afterGrace (hp : Paced d.flight.takenAt d.around.now (ns ++ d.notes))
    (hs : HandedOver d.flight.release (ns ++ d.notes)) (u : ExecutionUnit)
    (ending : Ending JobStatus)
    (cut : Bool) : (afterGrace u ending cut d).Custody ns := by
  have hlog : ∀ message : Text, Paced d.flight.takenAt d.around.now
      (ns ++ (d.notes ++ [.log .error message])) ∧
      HandedOver d.flight.release (ns ++ (d.notes ++ [.log .error message])) := by
    intro message
    rw [← List.append_assoc]
    exact ⟨hp.append rfl, hs.append hs.1 rfl⟩
  unfold afterGrace
  split
  · exact custody_endBody (d := d.dropTimer .grace) hp (.inl hs) _
  · exact custody_endBody (d := (d.dropTimer .grace).log .error _) (hlog _).1 (.inl (hlog _).2) _
  · exact custody_endBody (d := d.dropTimer .grace) hp (.inl hs) _
  -- The unit was handed over, so the release is past its start.
  · have hbegun : ∀ act, d.flight.release ≠ .fresh act := by
      intro act hact
      have h := hs.1
      rw [hact] at h
      cases h
    unfold cutRelease
    dsimp only
    split
    · exact ⟨hp, .inl hs, fun act hact => absurd hact (hbegun act)⟩
    · exact ⟨hp, .inl hs, fun act hact => absurd hact (hbegun act)⟩

theorem custody_afterCut (hp : Paced d.flight.takenAt d.around.now (ns ++ d.notes))
    (hs : HandedOver d.flight.release (ns ++ d.notes)) {u : ExecutionUnit}
    {ending : Ending JobStatus}
    {hold : Hold} (hbody : d.flight.body = .releasing u ending hold) (cut : Bool) :
    (e.afterCut u ending cut d).Custody ns := by
  have hlog : ∀ message : Text, ((d.log .error message).endBody ending).Custody ns := by
    intro message
    refine custody_endBody (d := d.log .error message) ?_ (.inl ?_) _
    · show Paced _ _ (ns ++ (d.notes ++ [_]))
      rw [← List.append_assoc]
      exact hp.append rfl
    · show HandedOver _ (ns ++ (d.notes ++ [_]))
      rw [← List.append_assoc]
      exact hs.append hs.1 rfl
  unfold afterCut
  split
  · exact custody_endBody hp (.inl hs) _
  · split
    · exact custody_endBody hp (.inl hs) _
    · exact hlog _
    · exact hlog _
    · refine ⟨hp, ?_, fun act hact => ?_⟩
      · rw [hbody]
        exact .inl hs
      · have h := hs.1
        rw [hact] at h
        cases h

/-- **A turn of the body leaves it in agreement with what was seen of its unit**, if the release
does not have yet to start. -/
theorem custody_bodyTurn (hg : e.graceSeconds.isNonPositive = false) (hn : d.notes = [])
    (hp : Paced d.flight.takenAt d.around.now ns)
    (hb : d.flight.body.Custody d.flight.takenAt d.around.now d.flight.release ns)
    (hr : ∀ act, d.flight.release ≠ .fresh act) : (e.bodyTurn d).Custody ns := by
  have hnotes : ns ++ d.notes = ns := by rw [hn, List.append_nil]
  rw [← hnotes] at hp hb
  have hp' : Paced (d.edit fun x => { x with bodyCall := .idle }).flight.takenAt
      (d.edit fun x => { x with bodyCall := .idle }).around.now
      (ns ++ (d.edit fun x => { x with bodyCall := .idle }).notes) := hp
  -- A body that has its turn while it releases does not wait for a release that has yet to
  -- start.
  have hover : ∀ {u ending hold}, d.flight.body = .releasing u ending hold →
      HandedOver d.flight.release (ns ++ d.notes) := by
    intro u ending hold hbody
    rw [hbody] at hb
    rcases hb with hh | ⟨-, ⟨act, hact⟩, -⟩
    · exact hh
    · exact absurd hact (hr act)
  -- One case for each state of the body.
  unfold bodyTurn
  dsimp only
  split
  · rename_i hbody
    rw [hbody] at hb
    split
    · exact custody_endBody hp' (.inr hb) _
    · have hmoved : Paced (Desk.move .provisioning
          (d.edit fun x => { x with bodyCall := .idle })).flight.takenAt
          (Desk.move .provisioning (d.edit fun x => { x with bodyCall := .idle })).around.now
          (ns ++
            (Desk.move .provisioning (d.edit fun x => { x with bodyCall := .idle })).notes) := by
        show Paced _ _ (ns ++ (d.notes ++ [_]))
        rw [← List.append_assoc]
        exact hp.append rfl
      refine custody_afterAcquire hg hmoved rfl hb.1 ?_ _
      show unitNotes (ns ++ (d.notes ++ [_])) = []
      rw [← List.append_assoc, unitNotes_append, hb.2]
      rfl
  · rename_i next hbody
    rw [hbody] at hb
    exact custody_afterAcquire hg hp' rfl hb.1 hb.2 _
  · rename_i u next hbody
    rw [hbody] at hb
    obtain ⟨hnone, ms, hrec, hunit, hkeeps⟩ := hb
    exact custody_afterSteps (d := d.edit fun x => { x with bodyCall := .idle }) hg rfl hnone u
        hrec hunit
      (hkeeps.2 _ _ (Nat.le_refl _))
  · rename_i u ending hbody
    exact custody_afterGrace hp' (hover hbody) u ending _
  · rename_i u ending passOn hbody
    exact custody_afterCut hp' (hover hbody) hbody _
  · rename_i ending hbody
    exact ⟨hp, hb, fun act hact => absurd hact (hr act)⟩

end Engine

/-! ## The release -/

namespace Desk

variable {ns : List Note} {d : Desk}

/-- A stretch of a release that has started. -/
theorem custody_afterRelease {a : Activity Deed Unit}
    (hp : Paced d.flight.takenAt d.around.now (ns ++ d.notes))
    (hb : ∀ r : Release, r.isBegun = true →
      d.flight.body.Custody d.flight.takenAt d.around.now r (ns ++ d.notes)) :
    (d.afterRelease (a.proceed d.around)).Custody ns := by
  have hout := a.outside_proceed d.around
  -- All that a stretch of the release shows, and that it may have been the last.
  have hshown : ∀ (r : Release) (ms : List Note), r.isBegun = true → recordedAmong ms = [] →
      unitNotes ms = [] →
      Paced d.flight.takenAt (a.proceed d.around).around.now
        (ns ++ ((d.notes ++ (a.proceed d.around).notes) ++ ms)) ∧
      d.flight.body.Custody d.flight.takenAt (a.proceed d.around).around.now r
        (ns ++ ((d.notes ++ (a.proceed d.around).notes) ++ ms)) := by
    intro r ms hr hrec hunit
    rw [a.proceed_now, List.append_assoc, ← List.append_assoc]
    have hrec' : recordedAmong ((a.proceed d.around).notes ++ ms) = [] := by
      rw [recordedAmong_append, recordedAmong_outside hout, hrec]
      rfl
    have hunit' : unitNotes ((a.proceed d.around).notes ++ ms) = [] := by
      rw [unitNotes_append, unitNotes_outside hout, hunit]
      rfl
    exact ⟨hp.append hrec', (hb r hr).later (Nat.le_refl _) hrec' hunit'⟩
  have hnil : ∀ r : Release, r.isBegun = true →
      Paced d.flight.takenAt (a.proceed d.around).around.now
        (ns ++ (d.notes ++ (a.proceed d.around).notes)) ∧
      d.flight.body.Custody d.flight.takenAt (a.proceed d.around).around.now r
        (ns ++ (d.notes ++ (a.proceed d.around).notes)) := by
    intro r hr
    have h := hshown r [] hr rfl rfl
    rwa [List.append_nil] at h
  unfold afterRelease
  split
  · rename_i ending hend
    unfold endRelease
    split
    · obtain ⟨hp', hb'⟩ := hshown (.ended (.done ())) [.released] rfl rfl rfl
      exact ⟨hp', hb', fun act hact => by cases hact⟩
    · obtain ⟨hp', hb'⟩ := hnil (.ended ending) rfl
      exact ⟨hp', hb', fun act hact => by cases hact⟩
  · rename_i span next hend
    obtain ⟨hp', hb'⟩ := hnil (.waiting next) rfl
    unfold pauseRelease callRelease
    dsimp only
    split
    · split <;> exact ⟨hp', hb', fun act hact => by cases hact⟩
    · exact ⟨hp', hb', fun act hact => by cases hact⟩

/-- **A turn of the release**: if it is its first, it is to be seen that it starts. -/
theorem custody_releaseTurn (hn : d.notes = []) (hp : Paced d.flight.takenAt d.around.now ns)
    (hb : d.flight.body.Custody d.flight.takenAt d.around.now d.flight.release ns)
    (hr : ∀ act, d.flight.release = .fresh act → d.flight.releaseCall = .called) :
    d.releaseTurn.Custody ns := by
  have hnotes : ns ++ d.notes = ns := by rw [hn, List.append_nil]
  rw [← hnotes] at hp hb
  unfold releaseTurn
  dsimp only
  split
  · rename_i act hrel
    rw [hr act hrel, if_neg (by simp)]
    rw [hrel] at hb
    refine custody_afterRelease (d := Desk.see .releasing (d.edit _)) ?_ fun r hbegun => ?_
    · show Paced _ _ (ns ++ (d.notes ++ [_]))
      rw [← List.append_assoc]
      exact hp.append rfl
    · show d.flight.body.Custody _ _ _ (ns ++ (d.notes ++ [_]))
      rw [← List.append_assoc]
      -- A release that has yet to start belongs to a body that waits for it.
      cases hbody : d.flight.body with
      | releasing u ending hold =>
        rw [hbody] at hb
        rcases hb with hh | ⟨-, -, calls, hcalls⟩
        · cases hh.1
        · refine .inl ⟨hbegun, calls, ?_⟩
          rw [unitNotes_append, hcalls]
          rfl
      | fresh =>
        rw [hbody] at hb
        cases hb.1
      | acquiring next =>
        rw [hbody] at hb
        cases hb.1
      | stepping u next =>
        rw [hbody] at hb
        cases hb.1
      | ended ending =>
        rw [hbody] at hb
        rcases hb with hh | hh <;> cases hh.1
  · rename_i next hrel
    rw [hrel] at hb
    exact custody_afterRelease (d := d.edit _) hp fun r hbegun => hb.proceed rfl hbegun
  · rename_i hfresh hwaiting
    exact ⟨hp, hb, fun act hact => absurd hact (hfresh act)⟩

/-- A turn that leaves body and release alone, and shows nothing. -/
structure Aside (d d' : Desk) : Prop where
  takenAt : d'.flight.takenAt = d.flight.takenAt
  body : d'.flight.body = d.flight.body
  release : d'.flight.release = d.flight.release
  around : d'.around = d.around
  notes : d'.notes = d.notes
  releaseCall : d.flight.releaseCall ≠ .idle → d'.flight.releaseCall = d.flight.releaseCall

theorem aside_callBody (d : Desk) : Aside d d.callBody := by
  unfold callBody
  split
  · exact ⟨rfl, rfl, rfl, rfl, rfl, fun _ => rfl⟩
  · exact ⟨rfl, rfl, rfl, rfl, rfl, fun _ => rfl⟩

theorem aside_callRelease (d : Desk) : Aside d d.callRelease := by
  unfold callRelease
  split
  · rename_i hidle
    exact ⟨rfl, rfl, rfl, rfl, rfl, fun hne => absurd hidle hne⟩
  · exact ⟨rfl, rfl, rfl, rfl, rfl, fun _ => rfl⟩

theorem aside_callWorker (d : Desk) (vigil : Vigil) : Aside d (d.callWorker vigil) := by
  unfold callWorker
  split
  · exact ⟨rfl, rfl, rfl, rfl, rfl, fun _ => rfl⟩
  · exact ⟨rfl, rfl, rfl, rfl, rfl, fun _ => rfl⟩

/-- All turns but those of body and release are such. -/
theorem aside_cueTurn (e : Engine) (d : Desk) {c : Cue} (hb : c ≠ .body) (hr : c ≠ .release) :
    Aside d (e.cueTurn c d) := by
  have hcued := e.cued_cueTurn c d
  generalize e.cueTurn c d = d' at hcued
  -- Calling another party changes neither body nor release.
  cases hcued with
  | body => exact absurd rfl hb
  | release => exact absurd rfl hr
  | callsBody => exact d.aside_callBody
  | callsRelease => exact d.aside_callRelease
  | callsWorker _ vigil => exact d.aside_callWorker vigil
  | _ => exact ⟨rfl, rfl, rfl, rfl, rfl, fun _ => rfl⟩

end Desk

/-! ## Lanes -/

theorem Note.ofUnit_of_ofWorker {n : Note} (h : n.ofWorker = true) : n.ofUnit = false := by
  cases n <;> first | rfl | cases h

namespace Lane

variable {e : Engine} {v v' : Lane} {d : Desk}

/-- Body and release agree with what was seen of the unit, and a release that is to start has its
turn before the body. -/
structure Custody (v : Lane) : Prop where
  summoned : v.Summoned
  paced : Paced v.flight.takenAt v.around.now v.notes
  body : v.flight.body.Custody v.flight.takenAt v.around.now v.flight.release v.notes
  fresh : ∀ act, v.flight.release = .fresh act →
    v.flight.releaseCall = .called ∧ Item.Precedes (.cue .release) (.cue .body) v.items

@[simp] theorem release_heard (c c' : Bool) (x : Flight) :
    (heard c c' x).release = x.release := by
  unfold heard
  split <;> rfl

@[simp] theorem releaseCall_heard (c c' : Bool) (x : Flight) :
    (heard c c' x).releaseCall = x.releaseCall := by
  unfold heard
  split <;> rfl

/-- A desk that is put back after a turn of body or release. -/
theorem custody_put (hs : (v.put d).Summoned) (hd : d.Custody v.notes) : (v.put d).Custody := by
  refine ⟨hs, ?_, ?_, ?_⟩
  · rw [notes_put, put_eq]
    simpa using hd.paced
  · rw [notes_put, put_eq]
    simpa using hd.body
  · intro act hact
    have hrel : d.flight.release = .fresh act := by
      rw [put_eq] at hact
      simpa using hact
    obtain ⟨hcalled, hidle, hmem⟩ := hd.fresh act hrel
    refine ⟨by rw [put_eq]; simpa using hcalled, Item.Precedes.of_mem ?_ ?_⟩
    · rw [items_put]
      refine List.mem_append_right _ (List.mem_append_right _ ?_)
      exact List.mem_filterMap.2 ⟨_, hmem, rfl⟩
    -- The body waits, and so has no turn to come.
    · unfold Summoned at hs
      rw [show (v.put d).flight.bodyCall = .idle by rw [put_eq]; simpa using hidle,
        if_pos rfl] at hs
      exact List.count_eq_zero.1 hs

/-- A desk that is put back after a turn that left body and release alone. -/
theorem Custody.put (h : v.Custody) (hs : (v.put d).Summoned)
    (htaken : d.flight.takenAt = v.flight.takenAt) (hbody : d.flight.body = v.flight.body)
    (hrelease : d.flight.release = v.flight.release) (hnow : d.around.now = v.around.now)
    (hcall : v.flight.releaseCall ≠ .idle → d.flight.releaseCall = v.flight.releaseCall)
    (hr : recordedAmong d.notes = []) (hu : unitNotes d.notes = []) : (v.put d).Custody := by
  refine ⟨hs, ?_, ?_, ?_⟩
  · rw [notes_put, put_eq]
    simp only [takenAt_heard]
    rw [htaken, hnow]
    exact h.paced.append hr
  · rw [notes_put, put_eq]
    simp only [takenAt_heard, body_heard, release_heard]
    rw [htaken, hbody, hrelease, hnow]
    exact h.body.later (Nat.le_refl _) hr hu
  -- A release that has yet to start is called already, and what is added comes after its turn.
  · intro act hact
    have hrel : v.flight.release = .fresh act := by
      rw [put_eq] at hact
      rw [← hrelease]
      simpa using hact
    obtain ⟨hcalled, hfirst⟩ := h.fresh act hrel
    refine ⟨?_, ?_⟩
    · rw [put_eq]
      simp only [releaseCall_heard]
      rw [hcall (by simp [hcalled])]
      exact hcalled
    · rw [items_put]
      exact hfirst.append _

/-- The next turn is taken up. It is not that of the body if the release has yet to start. -/
theorem Custody.pop (h : v.Custody) {i : Item} {rest : List Item} (hr : v.ready = i :: rest) :
    (i = .cue .body → ∀ act, v.flight.release ≠ .fresh act) ∧
      (i ≠ .cue .body → i ≠ .cue .release → ({ v with ready := rest } : Lane).Custody) := by
  have hitems : v.items = i :: ({ v with ready := rest } : Lane).items := by simp [items, hr]
  refine ⟨fun hi act hact => ?_, fun hb hi => ⟨(h.summoned.pop hr).2 hb, h.paced, h.body, ?_⟩⟩
  · have hfirst := (h.fresh act hact).2
    rw [hitems] at hfirst
    exact hfirst.head_ne (by simp) hi
  · intro act hact
    obtain ⟨hcalled, hfirst⟩ := h.fresh act hact
    rw [hitems] at hfirst
    exact ⟨hcalled, hfirst.tail hi⟩

/-- A turn of the worker. -/
theorem Custody.workerTurn (h : v.Custody) : (v.workerTurn e).Custody := by
  have hidle : v.idled.Custody := ⟨h.summoned, h.paced, h.body, h.fresh⟩
  by_cases hp : v.post = .away
  · rw [workerTurn_away e hp]
    exact hidle
  · have htends := v.tends_tend e hp
    have hput := hidle.put h.summoned.tend htends.takenAt htends.body htends.release
      (congrArg Surroundings.now htends.around) (fun _ => htends.releaseCall)
      (recordedAmong_quiet fun n hn => Note.quiet_of_ofWorker (htends.notes n hn))
      (unitNotes_eq_nil fun n hn => Note.ofUnit_of_ofWorker (htends.notes n hn))
    rw [workerTurn_eq e hp, after]
    split
    · exact hput
    · refine ⟨hput.summoned.retire, hput.paced, hput.body, fun act hact => ?_⟩
      obtain ⟨hcalled, hfirst⟩ := hput.fresh act hact
      have hitems : (v.idled.put (v.tend e).1).retire.items =
          (v.idled.put (v.tend e).1).items.filter fun i => i ≠ .worker :=
        (List.filter_append ..).symm
      rw [hitems]
      exact ⟨hcalled, hfirst.filter (by simp)⟩

/-- A turn of the flight. -/
theorem Custody.cueTurn (hg : e.graceSeconds.isNonPositive = false) (h : v.Custody) {c : Cue}
    {rest : List Item} (hr : v.ready = .cue c :: rest)
    (hs : (({ v with ready := rest } : Lane).put
      (e.cueTurn c ({ v with ready := rest } : Lane).desk)).Summoned) :
    (({ v with ready := rest } : Lane).put
      (e.cueTurn c ({ v with ready := rest } : Lane).desk)).Custody := by
  obtain ⟨hbody, hother⟩ := h.pop hr
  by_cases hcb : c = .body
  · subst hcb
    exact custody_put hs (Engine.custody_bodyTurn hg rfl h.paced h.body (hbody rfl))
  by_cases hcr : c = .release
  · subst hcr
    exact custody_put hs (Desk.custody_releaseTurn rfl h.paced h.body fun act hact =>
      (h.fresh act hact).1)
  -- Watches and the rest leave body and release alone.
  · have hpop := hother (by simpa using hcb) (by simpa using hcr)
    have haside := Desk.aside_cueTurn e ({ v with ready := rest } : Lane).desk hcb hcr
    exact hpop.put hs haside.takenAt haside.body haside.release
      (congrArg Surroundings.now haside.around) haside.releaseCall (by rw [haside.notes]; rfl)
      (by rw [haside.notes]; rfl)

/-- Turns that are added in the end do not come before those of a release that has yet to
start. -/
theorem Custody.fresh_append (h : v.Custody) (news : List Item)
    (hrelease : v'.flight.release = v.flight.release)
    (hcall : v'.flight.releaseCall = v.flight.releaseCall) (hitems : v'.items = v.items ++ news)
    (act : Activity Deed Unit) (hact : v'.flight.release = .fresh act) :
    v'.flight.releaseCall = .called ∧ Item.Precedes (.cue .release) (.cue .body) v'.items := by
  obtain ⟨hcalled, hfirst⟩ := h.fresh act (hrelease.symm.trans hact)
  rw [hitems]
  exact ⟨hcall.trans hcalled, hfirst.append news⟩

/-- **Every move keeps the custody of the unit.** -/
theorem Custody.passes (hg : e.graceSeconds.isNonPositive = false) (h : v.Custody)
    (hp : v.Passes e v') :
    v'.Custody := by
  have hs := h.summoned.passes hp
  cases hp with
  | @own i rest ready =>
    cases i with
    | cue c => exact h.cueTurn hg ready hs
    | worker => exact ((h.pop ready).2 (by simp) (by simp)).workerTurn
  | @other s now canceled =>
    rw [moveTo_eq] at hs ⊢
    refine ⟨hs, ?_, ?_, h.fresh_append
      (hearing v.around.canceled s.canceled v.flight) (by simp) (by simp) (by simp [items])⟩
    · simp only [takenAt_heard]
      rw [now]
      exact h.paced
    · simp only [takenAt_heard, body_heard, release_heard]
      rw [now]
      exact h.body
  -- To cut a worker is to add a turn of it, or nothing.
  | cut =>
    by_cases hpost : v.post = .away
    · rw [cut_of_away hpost]
      exact h
    by_cases hcall : v.call = .idle
    · rw [cut_of_idle hpost hcall] at hs ⊢
      exact ⟨hs, h.paced, h.body, h.fresh_append [.worker] rfl rfl (by simp [items, push])⟩
    · rw [cut_of_called hpost hcall] at hs ⊢
      exact ⟨hs, h.paced, h.body, h.fresh⟩
  | @round time bells ready now later timeout =>
    have hlater := h.body.later now (show recordedAmong [] = [] from rfl) rfl
    rw [List.append_nil] at hlater
    exact ⟨hs, h.paced.later now, hlater, h.fresh_append
      (bells.map fun b => .cue (.bell b)) rfl rfl (by simp [items, tick, ready])⟩

/-- A job that was just taken. -/
theorem custody_launched (i : JobInstance) (w : Nat) (s : Surroundings) :
    (launched i w s).Custody :=
  ⟨summoned_launched i w s, Nat.le_refl _, ⟨rfl, rfl⟩, fun _ hact => by cases hact⟩

end Lane

end Conveyor
