import Conveyor.Proofs.Schedule.Turned

/-!
# The timer of a body

A body that waits has one timer at most, and that goes off before anybody interrupts it, or is
taken back. So a body that begins to wait for the release of its unit is not disturbed by what it
asked for before.

- `Desk.Resumed`, `Engine.resumed_bodyTurn`: what a turn of a body leads to that has nothing to
  release.
- `Track.Tuned`: the timer of the body goes off once at most, and before the body has its turn.
- `Track.Before`, `Track.Before.passes`: **a body has nothing to release, or begins to wait for
  the release undisturbed**.
-/

namespace Conveyor

/-! ## A body with nothing to release -/

/-- Where a turn leaves a body that had nothing to release. -/
inductive Desk.Resumed (e : Engine) (d : Desk) : Prop
  /-- It waits for a time. -/
  | waits (release : d.flight.release = .none) (idle : d.flight.bodyCall = .idle) {span : Nat}
      (orders : d.orders = [.set (.finite span) .body])
  /-- It is over, or waits for its next turn only. -/
  | goesOn (release : d.flight.release = .none)
      (orders : ∀ o ∈ d.orders, o = .cue .body ∨ ∃ vigil, o = .cue (.bodyOver vigil))
  /-- It waits for the release of its unit. -/
  | releases {u : ExecutionUnit} {ending : Ending JobStatus}
      (body : d.flight.body = .releasing u ending .inTime) (idle : d.flight.bodyCall = .idle)
      (release : d.flight.release = .fresh (e.provisioner.release u))
      (called : d.flight.releaseCall = .called)
      (orders : d.orders = [.set e.grace .grace, .cue .release])

namespace Engine

open Desk

variable {e : Engine} {d : Desk}

theorem resumed_pauseBody (hr : d.flight.release = .none) (hi : d.flight.bodyCall = .idle)
    (ho : d.orders = []) (state : Body) (span : Nat) : (d.pauseBody state span).Resumed e := by
  unfold pauseBody
  dsimp only
  split
  · unfold callBody
    split
    · exact .goesOn hr (by simp [push, order, edit, ho])
    · exact .goesOn hr (by simp [edit, ho])
  · exact .waits hr hi (by simp [setTimer, order, edit, ho]; rfl)

theorem resumed_endBody (hr : d.flight.release = .none) (ho : d.orders = [])
    (ending : Ending JobStatus) : (d.endBody ending).Resumed e := by
  rw [endBody_eq]
  refine .goesOn hr fun o h => .inr ?_
  rw [ho, List.nil_append] at h
  obtain ⟨vigil, -, rfl⟩ := List.mem_map.1 h
  exact ⟨vigil, rfl⟩

theorem resumed_afterSteps (hg : e.graceSeconds.isNonPositive = false)
    (hr : d.flight.release = .none)
    (hi : d.flight.bodyCall = .idle) (ho : d.orders = []) (u : ExecutionUnit)
    (s : Stretch StepNote Bool) : (e.afterSteps u s d).Resumed e := by
  unfold afterSteps
  split
  · unfold beginRelease
    rw [hg, if_neg Bool.false_ne_true]
    exact .releases rfl hi rfl rfl (by simp [push, setTimer, order, edit, absorb, ho])
  · exact resumed_pauseBody (d := d.absorb s) hr hi ho _ _

theorem resumed_afterAcquire (hg : e.graceSeconds.isNonPositive = false)
    (hr : d.flight.release = .none) (hi : d.flight.bodyCall = .idle) (ho : d.orders = [])
    (s : Stretch Deed ExecutionUnit) : (e.afterAcquire s d).Resumed e := by
  unfold afterAcquire
  split
  · exact resumed_afterSteps (d := ((d.absorb s).see .acquired).move .running) hg hr hi ho _ _
  · unfold refuse
    refine resumed_endBody ?_ ?_ _
    · exact hr
    · exact ho
  · exact resumed_endBody (d := d.absorb s) hr ho _
  · exact resumed_pauseBody (d := d.absorb s) hr hi ho _ _

/-- **A turn of a body that has nothing to release.** -/
theorem resumed_bodyTurn (hg : e.graceSeconds.isNonPositive = false)
    (hr : d.flight.release = .none)
    (ho : d.orders = []) (hb : ∀ u ending hold, d.flight.body ≠ .releasing u ending hold) :
    (e.bodyTurn d).Resumed e := by
  unfold bodyTurn
  dsimp only
  split
  · split
    · exact resumed_endBody (d := d.edit fun x => { x with bodyCall := .idle }) hr ho _
    · refine resumed_afterAcquire hg ?_ rfl ?_ _
      · exact hr
      · exact ho
  · exact resumed_afterAcquire (d := d.edit fun x => { x with bodyCall := .idle }) hg hr rfl ho _
  · exact resumed_afterSteps (d := d.edit fun x => { x with bodyCall := .idle }) hg hr rfl ho _ _
  · rename_i u ending hbody
    exact absurd hbody (hb u ending _)
  · rename_i u ending passOn hbody
    exact absurd hbody (hb u ending _)
  · exact .goesOn hr (by simp [edit, ho])

end Engine

/-! ## The timer of the body -/

namespace Track

variable {e : Engine} {k k' : Track} {j : Item} {rest : List Item} {d : Desk}

/-- The body's timer goes off once at most, and before the body has the turn for which it is
called. -/
structure Tuned (k : Track) : Prop where
  once : Chime.countFor .body k.chimes + k.lane.ready.count (.cue (.bell .body)) ≤ 1
  later : .cue (.bell .body) ∉ k.lane.later
  called : k.lane.flight.bodyCall ≠ .idle → ∀ c ∈ k.chimes, c.bell ≠ .body
  first : .cue (.bell .body) ∈ k.lane.ready → .cue .body ∉ k.lane.ready

/-- Turns of others than the body; whoever calls a body that has a timer takes that back. -/
theorem Tuned.turn (h : k.Tuned) (hrest : rest.Sublist k.lane.ready) (ht : k.Turned rest d k')
    (ho : ∀ o ∈ d.orders, o.isEarly = true)
    (hcall : d.flight.bodyCall ≠ .idle → k.lane.flight.bodyCall ≠ .idle ∨
        .drop .body ∈ d.orders ∨
      ∀ c ∈ k.chimes, c.bell ≠ .body) : k'.Tuned := by
  have hset := set_not_mem_of_early ho (b := .body) (.inl rfl)
  have hready := ht.ready.trans hrest
  refine ⟨?_, ?_, ?_, ?_⟩
  · have hcount := Chime.countFor_obey_foldl k.lane.around.now hset k.chimes
    have honce := h.once
    have hle : k'.lane.ready.count (.cue (.bell .body)) ≤
        k.lane.ready.count (.cue (.bell .body)) :=
      hready.count_le _
    rw [ht.chimes]
    omega
  · exact fun hmem => h.later (ht.mem_later (callsBody_of_early ho) rfl hmem)
  -- A called body has no timer: it was called before, or the timer goes with the call, or there
  -- was none.
  · intro hcalled c hc hbell
    have hcalled' : d.flight.bodyCall ≠ .idle := by
      obtain ⟨b, b', hflight⟩ := ht.flight
      rwa [hflight, Lane.bodyCall_heard] at hcalled
    obtain ⟨hold, hkept⟩ := ht.mem_chimes (hbell ▸ hset) hc
    rcases hcall hcalled' with hbefore | hdrop | hnone
    · exact h.called hbefore c hold hbell
    · exact hkept (hbell ▸ hdrop)
    · exact hnone c hold hbell
  · exact fun hmem hbody => h.first (hready.mem hmem) (hready.mem hbody)

/-- A timer that goes off is no longer set. -/
theorem Tuned.rung (h : k.Tuned) (hr : k.lane.ready = .cue (.bell .body) :: rest) :
    ∀ c ∈ k.chimes, c.bell ≠ .body := by
  have honce := h.once
  rw [hr, List.count_cons_self] at honce
  exact Chime.countFor_eq_zero.1 (by omega)

/-- A body that has its turn has no timer. -/
theorem Tuned.silent (h : k.Tuned) (hs : k.lane.Summoned) (hr : k.lane.ready =
    .cue .body :: rest) :
    (∀ c ∈ k.chimes, c.bell ≠ .body) ∧ .cue (.bell .body) ∉ rest ++ k.lane.later := by
  refine ⟨h.called fun hidle => ?_, fun hmem => ?_⟩
  · unfold Lane.Summoned at hs
    rw [if_pos hidle, List.count_eq_zero] at hs
    exact hs (by simp [Lane.items, hr])
  · rcases List.mem_append.1 hmem with hmem | hmem
    · exact h.first (by simp [hr, hmem]) (by simp [hr])
    · exact h.later hmem

/-- A body that has its turn may set its timer. -/
theorem Tuned.wait (h : k.Tuned) (hs : k.lane.Summoned) (hr : k.lane.ready = .cue .body :: rest)
    (ht : k.Turned rest d k') (hidle : d.flight.bodyCall = .idle) {span : Span}
    (ho : d.orders = [.set span .body]) : k'.Tuned := by
  obtain ⟨hnone, hbell⟩ := h.silent hs hr
  -- The turn in hand was asked for, so that the timer that is set is the only one.
  have hready : .cue (.bell .body) ∉ k'.lane.ready :=
    fun hmem => hbell (List.mem_append_left _ (ht.ready.mem hmem))
  refine ⟨?_, ?_, ?_, fun hmem => absurd hmem hready⟩
  · have hone : Chime.countFor .body (Chime.obey k.lane.around.now k.chimes (.set span .body)) ≤
        1 := by
      rw [Chime.obey]
      split
      · rw [Chime.countFor_insert, Chime.countFor_eq_zero.2 hnone]
        simp
      · rw [Chime.countFor_eq_zero.2 hnone]
        exact Nat.zero_le 1
    rw [List.count_eq_zero.2 hready, ht.chimes, ho]
    exact hone
  · intro hmem
    exact h.later (ht.mem_later (by simp [ho]) rfl hmem)
  · intro hcalled
    obtain ⟨b, b', hflight⟩ := ht.flight
    rw [hflight, Lane.bodyCall_heard] at hcalled
    exact absurd hidle hcalled

/-- The next round; the timer goes off in it, or later. -/
theorem Tuned.tick (h : k.Tuned) (hs : k.lane.Summoned) (hr : k.lane.ready = []) (time : Nat) :
    (k.tick time).Tuned := by
  have hbell : .cue (.bell .body) ∈ (k.tick time).lane.ready → ∃ c ∈ k.chimes, c.bell =
      .body := by
    intro hmem
    rcases List.mem_append.1 hmem with hmem | hmem
    · exact absurd hmem h.later
    · obtain ⟨c, hc, -, heq⟩ := mem_bells hmem
      exact ⟨c, hc, by simpa using heq.symm⟩
  refine ⟨?_, List.not_mem_nil, ?_, ?_⟩
  · have honce := h.once
    rw [hr, List.count_nil, Nat.add_zero] at honce
    refine Nat.le_trans (Nat.le_of_eq ?_) honce
    show Chime.countFor .body (k.chimes.filter _) + (k.lane.later ++ _).count _ = _
    rw [List.count_append, List.count_eq_zero.2 h.later, Nat.zero_add, Chime.count_bells,
      Chime.countFor_filter]
  · exact fun hcalled c hc => h.called hcalled c (List.mem_filter.1 hc).1
  -- A body that has a timer is not called.
  · intro hmem hbody
    obtain ⟨c, hc, hb⟩ := hbell hmem
    have hidle : k.lane.flight.bodyCall = .idle := by
      by_contra hcalled
      exact h.called hcalled c hc hb
    unfold Lane.Summoned at hs
    rw [if_pos hidle, List.count_eq_zero] at hs
    refine hs (List.mem_append_right _ ?_)
    rcases List.mem_append.1 hbody with hbody | hbody
    · exact hbody
    · obtain ⟨c, -, -, heq⟩ := mem_bells hbody
      cases heq

/-! ## Before the release, and at its beginning -/

/-- The body has nothing to release, and nothing tells it of a release. -/
structure Before (k : Track) : Prop where
  release : k.lane.flight.release = .none
  tuned : k.Tuned
  grace : ∀ c ∈ k.chimes, c.bell ≠ .grace
  items : ∀ i ∈ k.lane.items, i.callsBody = true → i = .cue (.bell .body)

/-- Nothing calls the body, but for the grace period of its release. -/
structure Undisturbed (k : Track) : Prop where
  idle : k.lane.flight.bodyCall = .idle
  timer : ∀ c ∈ k.chimes, c.bell ≠ .body
  items : ∀ i ∈ k.lane.items, i.callsBody = false

/-- The body begins to wait for the release of its unit. -/
structure Begins (e : Engine) (k : Track) (u : ExecutionUnit) : Prop where
  undisturbed : k.Undisturbed
  body : ∃ ending, k.lane.flight.body = .releasing u ending .inTime
  release : k.lane.flight.release = .fresh (e.provisioner.release u)
  called : k.lane.flight.releaseCall = .called
  next : .cue .release ∈ k.lane.items
  grace : ∀ c ∈ k.chimes, c.bell = .grace → e.grace.due k.lane.around.now = some c.due

/-- Turns of others than the body. -/
theorem Before.turn (h : k.Before) (hrest : rest.Sublist k.lane.ready) (ht : k.Turned rest d k')
    (hrelease : d.flight.release = k.lane.flight.release) (ho : ∀ o ∈ d.orders, o.isEarly = true)
    (hcall : d.flight.bodyCall ≠ .idle → k.lane.flight.bodyCall ≠ .idle ∨
        .drop .body ∈ d.orders ∨
      ∀ c ∈ k.chimes, c.bell ≠ .body) : k'.Before := by
  refine ⟨?_, h.tuned.turn hrest ht ho hcall, ?_, ?_⟩
  · obtain ⟨b, b', hflight⟩ := ht.flight
    rw [hflight, Lane.release_heard, hrelease]
    exact h.release
  · intro c hc hbell
    have hset := set_not_mem_of_early ho (b := .grace) (.inr rfl)
    exact h.grace c (ht.mem_chimes (hbell ▸ hset) hc).1 hbell
  · exact fun j hj hc => h.items j (ht.mem_items hrest (callsBody_of_early ho) hc hj) hc

/-- A body with a release none of which is there does not wait for it. -/
theorem Before.not_releasing (h : k.Before) (hc : k.lane.Custody) (u : ExecutionUnit)
    (ending : Ending JobStatus) (hold : Hold) :
    k.lane.flight.body ≠ .releasing u ending hold := by
  intro hbody
  have hcustody := hc.body
  rw [hbody, h.release] at hcustody
  rcases hcustody with hh | ⟨-, ⟨act, hact⟩, -⟩
  · cases hh.1
  · cases hact

/-- **A turn of the body.** -/
theorem Before.bodyTurn (hg : e.graceSeconds.isNonPositive = false) (h : k.Before)
    (hc : k.lane.Custody) (hr : k.lane.ready = .cue .body :: rest)
    (ht : k.Turned rest (e.bodyTurn (k.pop rest).lane.desk) k') :
    k'.Before ∨ ∃ u, k'.Begins e u := by
  have hrest : rest.Sublist k.lane.ready := hr ▸ List.sublist_cons_self _ _
  obtain ⟨hnone, hbell⟩ := h.tuned.silent hc.summoned hr
  obtain ⟨b, b', hflight⟩ := ht.flight
  have hresumed := Engine.resumed_bodyTurn (d := (k.pop rest).lane.desk) hg h.release rfl
    (h.not_releasing hc)
  generalize e.bodyTurn (k.pop rest).lane.desk = d at ht hflight hresumed
  cases hresumed with
  | @waits release idle span orders =>
    refine .inl ⟨?_, h.tuned.wait hc.summoned hr ht idle orders, ?_, ?_⟩
    · rw [hflight, Lane.release_heard]
      exact release
    · exact fun c hmem hgrace =>
        h.grace c (ht.mem_chimes (by simp [orders, hgrace]) hmem).1 hgrace
    · exact fun j hj hcalls => h.items j (ht.mem_items hrest (by simp [orders]) hcalls hj) hcalls
  | goesOn release orders =>
    refine .inl (h.turn hrest ht (release.trans h.release.symm) ?_ fun _ => .inr (.inr hnone))
    intro o ho
    rcases orders o ho with rfl | ⟨vigil, rfl⟩
    · rfl
    · rfl
  | @releases u ending body idle release called orders =>
    have hquiet : ∀ c, .cue c ∈ d.orders → (Item.cue c).callsBody = false := by
      intro c hmem
      rw [orders] at hmem
      obtain rfl : c = .release := by simpa using hmem
      rfl
    refine .inr ⟨u, ⟨?_, ?_, ?_⟩, ⟨ending, ?_⟩, ?_, ?_, ht.added _ (by simp [orders]), ?_⟩
    · rw [hflight, Lane.bodyCall_heard]
      exact idle
    · exact fun c hmem hbody => hnone c (ht.mem_chimes (by simp [orders, hbody]) hmem).1 hbody
    · intro j hj
      by_contra hcalls
      have hcalls' : j.callsBody = true := by simpa using hcalls
      have hmem : j ∈ rest ++ k.lane.later :=
        (List.mem_append.1 hj).elim (fun hj => List.mem_append_left _ (ht.ready.mem hj))
          fun hj => List.mem_append_right _ (ht.mem_later hquiet hcalls' hj)
      obtain rfl := h.items j (ht.mem_items hrest hquiet hcalls' hj) hcalls'
      exact hbell hmem
    · rw [hflight, Lane.body_heard]
      exact body
    · rw [hflight, Lane.release_heard]
      exact release
    · rw [hflight, Lane.releaseCall_heard]
      exact called
    · intro c hmem hgrace
      rw [ht.chimes, orders] at hmem
      rcases Chime.of_mem_obey_foldl hmem with ⟨hold, -⟩ | ⟨span', hs, hdue⟩
      · exact absurd hgrace (h.grace c hold)
      · rw [hgrace] at hs
        obtain rfl : span' = e.grace := by simpa using hs
        rw [ht.now]
        exact hdue

/-- A turn of another party. -/
theorem Before.cueTurn (h : k.Before) {c : Cue} (hr : k.lane.ready = .cue c :: rest)
    (hb : c ≠ .body)
    (ht : k.Turned rest (e.cueTurn c (k.pop rest).lane.desk) k') : k'.Before := by
  have hrest : rest.Sublist k.lane.ready := hr ▸ List.sublist_cons_self _ _
  have hnews : (Item.cue c).callsBody = true → Item.cue c = .cue (.bell .body) :=
    h.items _ (by simp [Lane.items, hr])
  by_cases hrel : c = .release
  · subst hrel
    -- There is no release that could have a turn.
    have hturn : (k.pop rest).lane.desk.releaseTurn =
        (k.pop rest).lane.desk.edit fun x => { x with releaseCall := .idle } := by
      unfold Desk.releaseTurn
      rw [show (k.pop rest).lane.desk.flight.release = .none from h.release]
    have ht' : k.Turned rest (k.pop rest).lane.desk.releaseTurn k' := ht
    rw [hturn] at ht'
    exact h.turn hrest ht' rfl (by simp [Desk.edit, Lane.desk]) .inl
  by_cases hbody : c = .bell .body
  · subst hbody
    refine h.turn hrest ht (Desk.aside_callBody _).release ?_ fun _ =>
      .inr (.inr (h.tuned.rung hr))
    show ∀ o ∈ (k.pop rest).lane.desk.callBody.orders, o.isEarly = true
    unfold Desk.callBody
    split
    · simp [Desk.push, Desk.order, Desk.edit, Lane.desk, Order.isEarly]
    · simp [Lane.desk]
  · have hcalls : (Item.cue c).callsBody = false := by
      by_contra hcalls
      exact hbody (Item.cue.inj (hnews (by simpa using hcalls)))
    have hby := Cue.isBystander_of hb hrel hcalls
    have hstands := Desk.bystands_cueTurn e (d := (k.pop rest).lane.desk) rfl hby
    exact h.turn hrest ht (Desk.aside_cueTurn e _ hb hrel).release hstands.isEarly fun hcalled =>
      .inl (hstands.bodyCall ▸ hcalled)

/-- **Every move leaves a body without anything to release so, or it begins to wait
undisturbed.** -/
theorem Before.passes (hg : e.graceSeconds.isNonPositive = false) (h : k.Before)
    (hc : k.lane.Custody)
    (hp : k.Passes e k') : k'.Before ∨ ∃ u, k'.Begins e u := by
  cases hp with
  | @own i rest ready =>
    have ht := turned e k rest i
    cases i with
    | worker =>
      have hrest : rest.Sublist k.lane.ready := ready ▸ List.sublist_cons_self _ _
      refine .inl (h.turn hrest ht (Lane.release_tend e _) (Lane.isEarly_tend e _) fun hcalled =>
        ?_)
      rcases (k.pop rest).lane.bodyCall_tend e with hsame | ⟨-, hdrop⟩
      · exact .inl (hsame ▸ hcalled)
      · exact .inr (.inl hdrop)
    | cue c =>
      by_cases hb : c = .body
      · subst hb
        exact h.bodyTurn hg hc ready ht
      · exact .inl (h.cueTurn ready hb ht)
  | other now canceled =>
    exact .inl (h.turn (List.Sublist.refl _) (turned_other now) rfl (by simp [Lane.desk]) .inl)
  | cut =>
    exact .inl (h.turn (List.Sublist.refl _) k.turned_cut rfl (by simp [Lane.desk]) .inl)
  | @round time ready now later due =>
    refine .inl ⟨h.release, h.tuned.tick hc.summoned ready time, ?_, ?_⟩
    · exact fun c hmem => h.grace c (List.mem_filter.1 hmem).1
    · intro i hi hcalls
      rw [items_tick ready] at hi
      rcases List.mem_append.1 hi with hi | hi
      · exact h.items i hi hcalls
      · obtain ⟨c, hc', -, rfl⟩ := mem_bells hi
        cases hbell : c.bell with
        | body => rfl
        | grace => exact absurd hbell (h.grace c hc')
        | release => rw [hbell] at hcalls; cases hcalls
        | timeout => rw [hbell] at hcalls; cases hcalls
        | patience => rw [hbell] at hcalls; cases hcalls

/-- A job that was just taken has nothing to release. -/
theorem before_launched (i : JobInstance) (w : Nat) (s : Surroundings) :
    (launched i w s).Before := by
  have hbells : ∀ c ∈ (launched i w s).chimes, c.bell = .timeout := by
    intro c hc
    obtain ⟨due, -, rfl⟩ := List.mem_map.1 hc
    rfl
  refine ⟨rfl, ⟨?_, by simp [launched, Lane.launched], ?_, by simp [launched, Lane.launched]⟩,
    ?_, ?_⟩
  · have hnone : Chime.countFor .body (launched i w s).chimes = 0 := by
      refine Chime.countFor_eq_zero.2 fun c hc => ?_
      rw [hbells c hc]
      simp
    rw [hnone]
    simp [launched, Lane.launched]
  · intro _ c hc
    rw [hbells c hc]
    simp
  · intro c hc
    rw [hbells c hc]
    simp
  · intro j hj hcalls
    simp only [launched, Lane.launched, Lane.items, List.nil_append, List.mem_cons,
        List.not_mem_nil,
      or_false] at hj
    rcases hj with rfl | rfl <;> cases hcalls

end Track

end Conveyor
