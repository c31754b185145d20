import Conveyor.Proofs.Schedule.Sound

/-!
# Turns of the body

The body of a flight has one turn to come if it is called, and none if it waits.

- `Desk.Calls`: a desk after which this is so, given the turns that are to come besides those
  asked for.
- `Engine.calls_cueTurn`, `Engine.calls_afterWatching`, …: turns leave such a desk.
- `Lane.Summoned`, `Lane.Summoned.passes`: **every move keeps it so**.
-/

namespace Conveyor

/-- The body is to have one turn if it is called, and else none; `n` turns are to come besides
those that are asked for at the desk. -/
def Desk.Calls (n : Nat) (d : Desk) : Prop :=
  n + d.orders.count (.cue .body) = if d.flight.bodyCall = .idle then 0 else 1

namespace Desk.Calls

variable {n : Nat} {d : Desk}

theorem edit (h : d.Calls n) {g : Flight → Flight} (hg : ∀ x, (g x).bodyCall = x.bodyCall) :
    (d.edit g).Calls n := by
  unfold Calls at h ⊢
  show n + d.orders.count _ = if (g d.flight).bodyCall = .idle then 0 else 1
  rw [hg]
  exact h

theorem order (h : d.Calls n) {o : Order} (ho : o ≠ .cue .body) : (d.order o).Calls n := by
  unfold Calls at h ⊢
  show n + (d.orders ++ [o]).count _ = _
  rw [List.count_append, List.count_singleton, if_neg (by simpa using ho), Nat.add_zero]
  exact h

theorem see (h : d.Calls n) (note : Note) : (d.see note).Calls n := h

theorem move (h : d.Calls n) (target : JobState) : (d.move target).Calls n :=
  edit (h.see _) fun _ => rfl

theorem absorb {ν α : Type} (h : d.Calls n) (s : Stretch ν α) : (d.absorb s).Calls n := h

theorem callBody (h : d.Calls n) : d.callBody.Calls n := by
  unfold Desk.callBody
  split
  · rename_i hidle
    unfold Calls at h ⊢
    rw [if_pos hidle] at h
    show n + (d.orders ++ [Order.cue .body]).count _ = 1
    rw [List.count_append, List.count_singleton, if_pos (by simp)]
    omega
  · exact h

theorem cutBody (h : d.Calls n) : d.cutBody.Calls n := by
  unfold Calls at h ⊢
  unfold Desk.cutBody
  dsimp only
  split
  · rename_i hidle
    rw [if_pos hidle] at h
    show n + ((d.orders ++ [Order.drop .body]) ++ [Order.cue .body]).count _ = 1
    simp only [List.count_append, List.count_singleton]
    simp
    omega
  · rename_i hidle
    rw [if_neg hidle] at h
    show n + (d.orders ++ [Order.drop .body]).count _ = 1
    simp only [List.count_append, List.count_singleton]
    simpa using h

theorem callRelease (h : d.Calls n) : d.callRelease.Calls n := by
  have hcalled : (d.edit fun x => { x with releaseCall := .called }).Calls n :=
    h.edit fun _ => rfl
  unfold Desk.callRelease
  split
  · exact hcalled.order (by simp)
  · exact h

theorem cutRelease (h : d.Calls n) : d.cutRelease.Calls n := by
  have hset : (d.edit fun x => { x with releaseCall := .cut }).Calls n := h.edit fun _ => rfl
  have hcut := hset.order (o := .drop .release) (by simp)
  unfold Desk.cutRelease
  split
  · exact hcut.order (by simp)
  · exact hcut

theorem callWorker (h : d.Calls n) (vigil : Vigil) : (d.callWorker vigil).Calls n := by
  have hcalled : ({ d with call := .called } : Desk).Calls n := h
  unfold Desk.callWorker
  split
  · exact hcalled.order (by simp)
  · exact h

theorem pauseBody (h : d.Calls n) (state : Body) (span : Nat) :
    (d.pauseBody state span).Calls n := by
  have hset : (d.edit fun x => { x with body := state }).Calls n := h.edit fun _ => rfl
  unfold Desk.pauseBody
  split
  · exact hset.callBody
  · exact hset.order (by simp)

theorem endBody (h : d.Calls n) (ending : Ending JobStatus) : (d.endBody ending).Calls n := by
  have hset : (d.edit fun x => { x with body := .ended ending }).Calls n := h.edit fun _ => rfl
  unfold Desk.endBody
  split
  · exact hset.order (by simp)
  · exact hset

theorem endRelease (h : d.Calls n) (ending : Ending Unit) : (d.endRelease ending).Calls n := by
  have hended : ∀ d' : Desk, d'.Calls n →
      ((d'.edit fun x => { x with release := .ended ending }).push .releaseOver).Calls n := by
    intro d' h'
    have hset : (d'.edit fun x => { x with release := .ended ending }).Calls n :=
      h'.edit fun _ => rfl
    exact hset.order (by simp)
  unfold Desk.endRelease
  split
  · exact hended _ h
  · exact hended _ h

theorem afterRelease (h : d.Calls n) (s : Stretch Deed Unit) : (d.afterRelease s).Calls n := by
  unfold Desk.afterRelease
  split
  · exact (h.absorb s).endRelease _
  · rename_i span next hrest
    have hset : ((d.absorb s).edit fun x => { x with release := .waiting next }).Calls n :=
      (h.absorb s).edit fun _ => rfl
    unfold Desk.pauseRelease
    split
    · exact hset.callRelease
    · exact hset.order (by simp)

theorem releaseTurn (h : d.Calls n) : d.releaseTurn.Calls n := by
  have hidle : (d.edit fun x => { x with releaseCall := .idle }).Calls n := h.edit fun _ => rfl
  unfold Desk.releaseTurn
  dsimp only
  split
  · split
    · exact hidle.endRelease _
    · exact (hidle.see _).afterRelease _
  · exact hidle.afterRelease _
  · exact hidle

end Desk.Calls

/-! ## Turns -/

namespace Engine

open Desk

variable {n : Nat} {d : Desk}

theorem calls_beginRelease (e : Engine) (h : d.Calls n) (u : ExecutionUnit)
    (ending : Ending JobStatus) :
    (e.beginRelease u ending d).Calls n := by
  have hset : ∀ (hold : Hold) (act : Activity Deed Unit) (call : Call),
      Desk.Calls n (d.edit fun x =>
      { x with body := .releasing u ending hold, release := .fresh act, releaseCall := call }) :=
    fun hold act call => h.edit fun _ => rfl
  unfold beginRelease
  split
  · exact (hset _ _ _).order (by simp)
  · exact ((hset _ _ _).order (by simp)).order (by simp)

theorem calls_afterSteps (e : Engine) (h : d.Calls n) (u : ExecutionUnit)
    (s : Stretch StepNote Bool) :
    (e.afterSteps u s d).Calls n := by
  unfold afterSteps
  split
  · exact e.calls_beginRelease (h.absorb s) u _
  · exact (h.absorb s).pauseBody _ _

theorem calls_afterAcquire (e : Engine) (h : d.Calls n) (s : Stretch Deed ExecutionUnit) :
    (e.afterAcquire s d).Calls n := by
  have habsorb := h.absorb s
  unfold afterAcquire
  split
  · exact e.calls_afterSteps ((habsorb.see _).move _) _ _
  · unfold refuse
    exact (((habsorb.see _).see _).edit (g := fun x => { x with steps := x.steps ++ [_] })
      fun _ => rfl).endBody _
  · exact habsorb.endBody _
  · exact habsorb.pauseBody _ _

theorem calls_afterGrace (h : d.Calls n) (u : ExecutionUnit) (ending : Ending JobStatus)
    (cut : Bool) :
    (afterGrace u ending cut d).Calls n := by
  have hdrop := h.order (o := .drop .grace) (by simp)
  unfold afterGrace
  split
  · exact hdrop.endBody _
  · exact (hdrop.see _).endBody _
  · exact hdrop.endBody _
  · exact (hdrop.edit (g := fun x => { x with body := .releasing u ending (.cutting cut) })
      fun _ => rfl).cutRelease

theorem calls_afterCut (e : Engine) (h : d.Calls n) (u : ExecutionUnit)
    (ending : Ending JobStatus)
    (cut : Bool) : (e.afterCut u ending cut d).Calls n := by
  unfold afterCut
  split
  · exact h.endBody _
  · split
    · exact h.endBody _
    · exact (h.see _).endBody _
    · exact (h.see _).endBody _
    · exact h

/-- The body has its turn, and is called again or not. -/
theorem calls_bodyTurn (e : Engine) (ho : d.orders = []) : (e.bodyTurn d).Calls 0 := by
  have hidle : (d.edit fun x => { x with bodyCall := .idle }).Calls 0 := by
    unfold Calls
    show 0 + d.orders.count _ = 0
    rw [ho]
    rfl
  unfold bodyTurn
  dsimp only
  split
  · split
    · exact hidle.endBody _
    · exact e.calls_afterAcquire (hidle.move _) _
  · exact e.calls_afterAcquire hidle _
  · exact e.calls_afterSteps hidle _ _
  · exact calls_afterGrace hidle _ _ _
  · exact e.calls_afterCut hidle _ _ _
  · exact hidle

/-- A turn of somebody else. -/
theorem calls_cueTurn (e : Engine) (h : d.Calls n) {c : Cue} (hc : c ≠ .body) :
    (e.cueTurn c d).Calls n := by
  have hcued := e.cued_cueTurn c d
  generalize e.cueTurn c d = d' at hcued
  cases hcued with
  | body => exact absurd rfl hc
  | release => exact h.releaseTurn
  | watches => exact h.edit fun _ => rfl
  | endsWatch =>
    exact (h.edit (g := fun x => { x with watch := .ended }) fun _ => rfl).order (by simp)
  | callsBody => exact h.callBody
  | callsRelease => exact h.callRelease
  | callsWorker _ vigil => exact h.callWorker vigil
  | nothing => exact h

theorem calls_preempt (e : Engine) (h : d.Calls n) (cause : Cause) :
    (e.preempt cause d).Calls n := by
  have hpost : ({ d with post := .preempting cause } : Desk).Calls n := h
  unfold preempt
  split
  · exact (hpost.order (by simp)).order (by simp)
  · exact hpost.cutBody.order (by simp)

theorem calls_afterWatching (e : Engine) (h : d.Calls n) (cut : Bool) :
    (e.afterWatching cut d).1.Calls n := by
  have hset : (d.edit fun x => { x with watch := .dismissed }).Calls n := h.edit fun _ => rfl
  have hdrop := hset.order (o := .drop .timeout) (by simp)
  unfold afterWatching
  dsimp only
  split
  · exact e.calls_preempt hdrop _
  · split
    · exact (hdrop.move _).see _
    · split
      · exact e.calls_preempt (hdrop.see _) _
      · exact e.calls_preempt (hdrop.see _) _
    · exact e.calls_preempt hdrop _
    · split
      · exact e.calls_preempt (hdrop.see _) _
      · exact e.calls_preempt (hdrop.see _) _

theorem calls_afterPreempting (e : Engine) (h : d.Calls n) (cause : Cause) (cut : Bool) :
    (e.afterPreempting cause cut d).1.Calls n := by
  have hdrop := h.order (o := .drop .patience) (by simp)
  unfold afterPreempting
  dsimp only
  split
  · exact hdrop
  · cases preemptionMessage d.flight.body with
    | none =>
      cases cause.status? with
      | none => exact hdrop
      | some status => exact (hdrop.move _).see _
    | some message =>
      cases cause.status? with
      | none => exact hdrop.see _
      | some status => exact ((hdrop.see _).move _).see _

end Engine

/-! ## Lanes -/

namespace Lane

variable {e : Engine} {v v' : Lane} {d : Desk}

/-- The body has one turn to come if it is called, and else none. -/
def Summoned (v : Lane) : Prop :=
  v.items.count (.cue .body) = if v.flight.bodyCall = .idle then 0 else 1

@[simp] theorem bodyCall_heard (c c' : Bool) (x : Flight) :
    (heard c c' x).bodyCall = x.bodyCall := by
  unfold heard
  split <;> rfl

/-- What is asked for at a desk, as turns of the body. -/
theorem count_orders (os : List Order) :
    (os.filterMap Order.item?).count (.cue .body) = os.count (.cue .body) := by
  induction os with
  | nil => rfl
  | cons o os ih =>
    cases o with
    | cue c => by_cases hc : c = .body <;> simp [Order.item?, ih, hc]
    | worker => simp [Order.item?, ih]
    | set span b =>
      rw [List.filterMap_cons_none rfl, List.count_cons_of_ne (by simp), ih]
    | drop b =>
      rw [List.filterMap_cons_none rfl, List.count_cons_of_ne (by simp), ih]

theorem count_hearing (c c' : Bool) (x : Flight) : (hearing c c' x).count (.cue .body) = 0 := by
  unfold hearing
  split <;> rfl

theorem summoned_put (h : d.Calls (v.items.count (.cue .body))) : (v.put d).Summoned := by
  unfold Desk.Calls at h
  unfold Summoned
  rw [put_eq]
  simp only [items, List.count_append, count_orders, count_hearing, bodyCall_heard] at h ⊢
  omega

/-- The turns of the worker do not count. -/
theorem Summoned.retire (h : v.Summoned) : v.retire.Summoned := by
  unfold Summoned at h ⊢
  have hcount : ∀ l : List Item, (l.filter fun i => i ≠ .worker).count (.cue .body) =
      l.count (.cue .body) := fun l => List.count_filter (by simp)
  simp only [items, List.count_append] at h ⊢
  show (v.ready.filter _).count _ + (v.later.filter _).count _ = if v.flight.bodyCall =
    .idle then 0 else 1
  rw [hcount, hcount]
  exact h

theorem Summoned.tend (h : v.Summoned) : (v.idled.put (v.tend e).1).Summoned := by
  have hdesk : v.idled.desk.Calls (v.idled.items.count (.cue .body)) := h
  refine summoned_put ?_
  unfold Lane.tend
  cases v.post with
  | away => exact hdesk
  | watching => exact e.calls_afterWatching hdesk _
  | preempting cause => exact e.calls_afterPreempting hdesk cause _

theorem Summoned.workerTurn (h : v.Summoned) : (v.workerTurn e).Summoned := by
  by_cases hp : v.post = .away
  · rw [workerTurn_away e hp]
    exact h
  · rw [workerTurn_eq e hp, after]
    split
    · exact h.tend
    · exact h.tend.retire

/-- The next turn is taken up. If it is that of the body, there is no other. -/
theorem Summoned.pop (h : v.Summoned) {i : Item} {rest : List Item} (hr : v.ready = i :: rest) :
    (i = .cue .body → ({ v with ready := rest } : Lane).items.count (.cue .body) = 0) ∧
      (i ≠ .cue .body → ({ v with ready := rest } : Lane).Summoned) := by
  have hcount : v.items.count (.cue .body) =
      ({ v with ready := rest } : Lane).items.count (.cue .body) + if i = .cue .body then
        1 else 0 := by
    simp only [items, hr, List.cons_append, List.count_cons]
    simp
  unfold Summoned at h ⊢
  refine ⟨fun hi => ?_, fun hi => ?_⟩
  · rw [if_pos hi] at hcount
    split at h <;> omega
  · rw [if_neg hi, Nat.add_zero] at hcount
    rw [← hcount]
    exact h

/-- **Every move keeps the turns of the body in order.** -/
theorem Summoned.passes (h : v.Summoned) (hp : v.Passes e v') : v'.Summoned := by
  cases hp with
  | @own i rest ready =>
    obtain ⟨hbody, hother⟩ := h.pop ready
    cases i with
    | cue c =>
      by_cases hc : c = .body
      · subst hc
        refine summoned_put ?_
        rw [hbody rfl]
        exact e.calls_bodyTurn rfl
      · have hdesk : ({ v with ready := rest } : Lane).desk.Calls
            (({ v with ready := rest } : Lane).items.count (.cue .body)) :=
              hother (by simpa using hc)
        exact summoned_put (e.calls_cueTurn hdesk hc)
    | worker => exact (hother (by simp)).workerTurn
  -- The news of a cancellation calls the watch, never the body.
  | @other s now canceled =>
    unfold Summoned at h ⊢
    rw [moveTo_eq]
    simp only [items, List.count_append, count_hearing, bodyCall_heard] at h ⊢
    omega
  | cut =>
    obtain ⟨call, items, hcut, -, hitems⟩ := v.cut_eq
    have hnone : items.count (.cue .body) = 0 := by
      rw [List.count_eq_zero]
      exact fun hmem => by cases hitems _ hmem
    unfold Summoned Lane.items at h ⊢
    rw [hcut, ← List.append_assoc, List.count_append, hnone, h]
    rfl
  | @round time bells ready now later timeout =>
    unfold Summoned at h ⊢
    have hbells : (bells.map fun b => Item.cue (.bell b)).count (.cue .body) = 0 := by
      rw [List.count_eq_zero]
      simp
    simp only [items, ready, tick, List.count_append, hbells, List.nil_append, List.append_nil,
      Nat.add_zero] at h ⊢
    exact h

theorem summoned_launched (i : JobInstance) (w : Nat) (s : Surroundings) :
    (launched i w s).Summoned := rfl

end Lane

end Conveyor
