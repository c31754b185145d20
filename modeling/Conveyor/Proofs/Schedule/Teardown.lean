import Conveyor.Proofs.Schedule.Bells
import Conveyor.Proofs.Schedule.Deadlines
import Conveyor.Proofs.Schedule.Ownership

/-!
# Releases that come to their end

A release that needs less time than its grace period comes to its end, unless the worker
interrupts the job just while the release is in progress: the interruption then goes on to the
release.

- `Activity.DoneWithin`: uninterrupted, an activity is done after some time at most.
- `Track.Tearing`: a release is in progress, and will be done before its grace period is over.
- `Track.Tearing.passes`: **so it stays until it is done, or until the worker interrupts the
  job**.
- `Engine.CutsShort`: a worker interrupts a job whose release is in progress.
- `Engine.released_unless_cutShort`: **a release that is not abandoned and not cut short is
  done**.
- `Engine.release_cutShort`: a release that is cut short, long before its grace period is over.
-/

namespace Conveyor

variable {σ : Type}

/-! ## Activities that are done within a time -/

namespace Activity

variable {ν α : Type}

/-- Uninterrupted, the activity is done after no more than some nanoseconds, whatever it is
told. -/
def DoneWithin : Activity ν α → Nat → Prop
  | finish e, _ => ∃ a, e = .done a
  | note _ next, n => next.DoneWithin n
  | wait span next, n => span ≤ n ∧ (next false).DoneWithin (n - span)
  | clock next, n => ∀ t, (next t).DoneWithin n
  | poll next, n => ∀ c, (next c).DoneWithin n
  | cancel next, n => next.DoneWithin n
  | draw _ next, n => ∀ m, (next m).DoneWithin n

end Activity

/-- Where a stretch leaves an activity, it is still done within a time. -/
def Rest.DoneWithin {ν α : Type} (n : Nat) : Rest ν α → Prop
  | .ended e => ∃ a, e = .done a
  | .waiting span next => span ≤ n ∧ (next false).DoneWithin (n - span)

/-- **A stretch of an activity that is done within a time leaves the rest of that time.** -/
theorem Activity.DoneWithin.proceed {ν α : Type} [NoteKind ν] {a : Activity ν α} {n : Nat}
    (h : a.DoneWithin n) (s : Surroundings) : (a.proceed s).rest.DoneWithin n := by
  induction a generalizing s with
  | finish e => exact h
  | note m next ih => exact ih h s
  | wait span next ih => exact h
  | clock next ih => exact ih s.now (h s.now) s
  | poll next ih => exact ih s.canceled (h s.canceled) s
  | cancel next ih => exact ih h _
  | draw c next ih => exact ih _ (h _) _

/-- A release is done within a time, once it has its next turn. -/
def Release.DoneWithin (n : Nat) : Release → Prop
  | .fresh act => act.DoneWithin n
  | .waiting next => (next false).DoneWithin n
  | _ => False

/-- Is a release in progress? -/
def Release.isPending : Release → Bool
  | .fresh _ | .waiting _ => true
  | _ => false

theorem Release.DoneWithin.isPending {n : Nat} {r : Release} (h : r.DoneWithin n) :
    r.isPending = true := by
  cases r with
  | none => exact h.elim
  | fresh act => rfl
  | waiting next => rfl
  | ended ending => exact h.elim

namespace Desk

variable {d : Desk} {n : Nat}

/-- Where a turn leaves a release that is done within a time: it is over, or waits for a part of
that time. -/
inductive Proceeded (n : Nat) (d d' : Desk) : Prop
  | ends (released : .released ∈ d'.notes)
  | waits {span : Nat} (within : span ≤ n) (remains : d'.flight.release.DoneWithin (n - span))
      (body : d'.flight.body = d.flight.body) (bodyCall : d'.flight.bodyCall = d.flight.bodyCall)
      (next : span = 0 ∧ d'.flight.releaseCall = .called ∧ d'.orders = [.cue .release] ∨
        d'.flight.releaseCall = .idle ∧ d'.orders = [.set (.finite span) .release])

theorem proceeded_afterRelease {r : Desk} {a : Activity Deed Unit} (ha : a.DoneWithin n)
    (hbody : r.flight.body = d.flight.body) (hcall : r.flight.bodyCall = d.flight.bodyCall)
    (hi : r.flight.releaseCall = .idle) (ho : r.orders = []) (s : Surroundings) :
    Proceeded n d (r.afterRelease (a.proceed s)) := by
  have hrest := ha.proceed s
  unfold afterRelease
  -- The release is over, or waits: not at all, or until a time within what is left to it.
  split
  · rename_i ending hend
    rw [hend] at hrest
    obtain ⟨u, rfl⟩ := hrest
    exact .ends (List.mem_append_right _ List.mem_cons_self)
  · rename_i span next hend
    rw [hend] at hrest
    obtain ⟨hwithin, hremains⟩ := hrest
    unfold pauseRelease callRelease
    dsimp only
    split
    · rename_i hspan
      subst hspan
      rw [if_pos (by exact hi)]
      refine .waits hwithin hremains hbody hcall (.inl ⟨rfl, rfl, ?_⟩)
      simp [push, order, edit, absorb, ho]
    · refine .waits hwithin hremains hbody hcall (.inr ⟨hi, ?_⟩)
      simp [setTimer, order, edit, absorb, ho]

/-- **A turn of a release that is done within a time.** -/
theorem proceeded_releaseTurn (hr : d.flight.release.DoneWithin n)
    (hc : d.flight.releaseCall ≠ .cut)
    (ho : d.orders = []) : Proceeded n d d.releaseTurn := by
  have hcut : decide (d.flight.releaseCall = .cut) = false := decide_eq_false hc
  unfold releaseTurn
  rw [hcut]
  cases hrel : d.flight.release with
  | none =>
    rw [hrel] at hr
    exact hr.elim
  | ended ending =>
    rw [hrel] at hr
    exact hr.elim
  | fresh act =>
    rw [hrel] at hr
    exact proceeded_afterRelease (d := d)
      (r := (d.edit fun x => { x with releaseCall := .idle }).see .releasing) hr rfl rfl rfl ho
        d.around
  | waiting next =>
    rw [hrel] at hr
    exact proceeded_afterRelease (d := d) (r := d.edit fun x => { x with releaseCall := .idle })
        hr rfl rfl
      rfl ho d.around

end Desk

/-! ## Releases in progress -/

/-- A worker that watched a job whose body is not over interrupts it. -/
theorem Lane.preempting_of_watching {e : Engine} (v : Lane) (hp : v.post = .watching)
    (hover : v.flight.body.isOver = false) :
    ∃ cause, (v.workerTurn e).post = .preempting cause := by
  have hne : v.post ≠ .away := by simp [hp]
  cases v.served_workerTurn e hne with
  | preempts post reason next results => exact ⟨_, next⟩
  | concludes reason next results =>
    rcases reason with ⟨-, hbody⟩ | ⟨cause, hpre, -⟩
    · rw [hbody] at hover
      cases hover
    · rw [hp] at hpre
      cases hpre
  | stops post next results =>
    obtain ⟨cause, hpre⟩ := post
    rw [hp] at hpre
    cases hpre

namespace Track

variable {e : Engine} {k k' : Track} {rest : List Item} {d : Desk} {time n : Nat}

/-- The release has its next turn no later than at a time. -/
def ReleaseBy (time : Nat) (k : Track) : Prop :=
  k.lane.around.now ≤ time ∧ (.cue .release ∈ k.lane.items ∨ k.lane.flight.releaseCall = .idle ∧
    (.cue (.bell .release) ∈ k.lane.items ∨ ⟨.time time, .release⟩ ∈ k.chimes))

/-- The grace period of the release is over later than at a time. -/
def GraceBeyond (time : Nat) (k : Track) : Prop :=
  ∀ c ∈ k.chimes, c.bell = .grace → ∃ t, c.due = .time t ∧ (time : Int) < t

/-- The body waits for a release that will be done before its grace period is over. -/
structure Tearing (k : Track) : Prop where
  undisturbed : k.Undisturbed
  body : ∃ u ending, k.lane.flight.body = .releasing u ending .inTime
  uncut : k.lane.flight.releaseCall ≠ .cut
  slack : ∃ time n, k.lane.flight.release.DoneWithin n ∧ k.ReleaseBy time ∧
    k.GraceBeyond (time + n)

theorem GraceBeyond.mono {time' : Nat} (h : k.GraceBeyond time) (hle : time' ≤ time) :
    k.GraceBeyond time' := by
  intro c hc hbell
  obtain ⟨t, hdue, hlt⟩ := h c hc hbell
  exact ⟨t, hdue, by omega⟩

/-- A turn that does not begin a release leaves its grace period. -/
theorem GraceBeyond.turn (h : k.GraceBeyond time) (ht : k.Turned rest d k')
    (ho : ∀ o ∈ d.orders, o.isEarly = true) : k'.GraceBeyond time := by
  intro c hc hbell
  have hset := set_not_mem_of_early ho (b := .grace) (.inr rfl)
  exact h c (ht.mem_chimes (hbell ▸ hset) hc).1 hbell

theorem Undisturbed.turn (h : k.Undisturbed) (hrest : rest.Sublist k.lane.ready)
    (ht : k.Turned rest d k') (hidle : d.flight.bodyCall = k.lane.flight.bodyCall)
    (ho : ∀ o ∈ d.orders, o.isEarly = true) : k'.Undisturbed := by
  refine ⟨?_, ?_, ?_⟩
  · obtain ⟨b, b', hflight⟩ := ht.flight
    rw [hflight, Lane.bodyCall_heard, hidle]
    exact h.idle
  · intro c hc hbell
    have hset := set_not_mem_of_early ho (b := .body) (.inl rfl)
    exact h.timer c (ht.mem_chimes (hbell ▸ hset) hc).1 hbell
  · intro j hj
    by_contra hcalls
    have hcalls' : j.callsBody = true := by simpa using hcalls
    rw [h.items j (ht.mem_items hrest (callsBody_of_early ho) hcalls' hj)] at hcalls'
    cases hcalls'

/-- A turn that leaves the release alone leaves it its next turn. -/
theorem ReleaseBy.turn (h : k.ReleaseBy time) (ht : k.Turned rest d k')
    (hdrop : .drop .release ∉ d.orders)
    (hcue : .cue .release ∈ k.lane.items → .cue .release ∈ rest ++ k.lane.later)
    (hcall : k.lane.flight.releaseCall = .idle → .cue .release ∈ d.orders ∨
      d.flight.releaseCall = .idle ∧
        (.cue (.bell .release) ∈ k.lane.items → .cue (.bell .release) ∈ rest ++ k.lane.later)) :
    k'.ReleaseBy time := by
  refine ⟨ht.now ▸ h.1, ?_⟩
  rcases h.2 with hmem | ⟨hidle, hnext⟩
  · exact .inl (ht.kept _ (hcue hmem))
  rcases hcall hidle with hadded | ⟨hidle', hbell⟩
  · exact .inl (ht.added _ hadded)
  · right
    obtain ⟨b, b', hflight⟩ := ht.flight
    rw [hflight, Lane.releaseCall_heard]
    refine ⟨hidle', hnext.imp (fun hmem => ht.kept _ (hbell hmem)) fun hmem => ?_⟩
    rw [ht.chimes]
    exact Chime.mem_obey_foldl hdrop hmem

/-- A turn that leaves body and release alone. -/
theorem Tearing.turn (h : k.Tearing) (hrest : rest.Sublist k.lane.ready)
    (ht : k.Turned rest d k')
    (hbody : d.flight.body = k.lane.flight.body) (hidle : d.flight.bodyCall =
        k.lane.flight.bodyCall)
    (hrelease : d.flight.release = k.lane.flight.release) (huncut : d.flight.releaseCall ≠ .cut)
    (ho : ∀ o ∈ d.orders, o.isEarly = true) (hby : ∀ time, k.ReleaseBy time →
        k'.ReleaseBy time) :
    k'.Tearing := by
  obtain ⟨u, ending, hb⟩ := h.body
  obtain ⟨time, n, hdone, hturn, hgrace⟩ := h.slack
  obtain ⟨b, b', hflight⟩ := ht.flight
  refine ⟨h.undisturbed.turn hrest ht hidle ho, ⟨u, ending, ?_⟩, ?_, time, n, ?_, hby time hturn,
    hgrace.turn ht ho⟩
  · rw [hflight, Lane.body_heard, hbody]
    exact hb
  · rw [hflight, Lane.releaseCall_heard]
    exact huncut
  · rw [hflight, Lane.release_heard, hrelease]
    exact hdone

/-- **A turn of the release.** -/
theorem Tearing.releaseTurn (h : k.Tearing) (hr : k.lane.ready = .cue .release :: rest)
    (ht : k.Turned rest (k.pop rest).lane.desk.releaseTurn k') :
    k'.Tearing ∨ .released ∈ k'.lane.notes := by
  obtain ⟨u, ending, hb⟩ := h.body
  obtain ⟨time, n, hdone, hturn, hgrace⟩ := h.slack
  obtain ⟨b, b', hflight⟩ := ht.flight
  have hrest : rest.Sublist k.lane.ready := hr ▸ List.sublist_cons_self _ _
  have hproceeded := Desk.proceeded_releaseTurn (d := (k.pop rest).lane.desk) hdone h.uncut rfl
  generalize (k.pop rest).lane.desk.releaseTurn = d at ht hflight hproceeded
  cases hproceeded with
  | ends released =>
    right
    rw [ht.notes]
    exact List.mem_append_right _ released
  | @waits span within remains body bodyCall next =>
    left
    have hearly : ∀ o ∈ d.orders, o.isEarly = true := by
      rcases next with ⟨-, -, horders⟩ | ⟨-, horders⟩
      · simp [horders, Order.isEarly]
      · simp [horders, Order.isEarly]
    refine ⟨h.undisturbed.turn hrest ht bodyCall hearly, ⟨u, ending, ?_⟩, ?_,
      k.lane.around.now + span, n - span, ?_, ⟨?_, ?_⟩, ?_⟩
    · rw [hflight, Lane.body_heard, body]
      exact hb
    · rw [hflight, Lane.releaseCall_heard]
      rcases next with ⟨-, hcalled, -⟩ | ⟨hidle, -⟩
      · simp [hcalled]
      · simp [hidle]
    · rw [hflight, Lane.release_heard]
      exact remains
    · rw [ht.now]
      exact Nat.le_add_right _ _
    · rcases next with ⟨-, -, horders⟩ | ⟨hidle, horders⟩
      · exact .inl (ht.added _ (by simp [horders]))
      · right
        rw [hflight, Lane.releaseCall_heard]
        refine ⟨hidle, .inr ?_⟩
        rw [ht.chimes]
        have hset : .set (.finite span) .release ∈ d.orders := by simp [horders]
        refine Chime.mem_obey_foldl_set hset (by simp [horders]) ?_ _
        simp [Span.due]
    -- The release has used up what it has waited, and no more.
    · have hle : k.lane.around.now + span + (n - span) ≤ time + n := by
        have := hturn.1
        omega
      exact (hgrace.mono hle).turn ht hearly

/-- A turn of another party. -/
theorem Tearing.cueTurn (h : k.Tearing) {c : Cue} (hr : k.lane.ready = .cue c :: rest)
    (hb : c ≠ .body)
    (hrel : c ≠ .release) (ht : k.Turned rest (e.cueTurn c (k.pop rest).lane.desk) k') :
    k'.Tearing := by
  have hitems : k.lane.items = .cue c :: (rest ++ k.lane.later) := by simp [Lane.items, hr]
  -- A turn that calls the body is not to come, as long as the release goes on.
  have hnews : (Item.cue c).callsBody = false := h.undisturbed.items _ (by simp [hitems])
  have hby := Cue.isBystander_of hb hrel hnews
  have haside := Desk.aside_cueTurn e (k.pop rest).lane.desk hb hrel
  have hstands := Desk.bystands_cueTurn e (d := (k.pop rest).lane.desk) rfl hby
  refine h.turn (hr ▸ List.sublist_cons_self _ _) ht haside.body hstands.bodyCall
      haside.release ?_
    hstands.isEarly fun time hturn => hturn.turn ht ?_ ?_ ?_
  · rcases hstands.releaseCall with hsame | ⟨hcalled, -⟩
    · rw [hsame]
      exact h.uncut
    · simp [hcalled]
  · intro hdrop
    rcases hstands.orders _ hdrop with heq | heq | heq <;> cases heq
  · intro hmem
    rw [hitems] at hmem
    exact (List.mem_cons.1 hmem).resolve_left fun heq => hrel (Item.cue.inj heq).symm
  · intro hidle
    by_cases hbell : c = .bell .release
    · subst hbell
      left
      show _ ∈ (k.pop rest).lane.desk.callRelease.orders
      unfold Desk.callRelease
      rw [if_pos (by exact hidle)]
      exact List.mem_append_right _ List.mem_cons_self
    · rcases hstands.releaseCall with hsame | ⟨-, hmem⟩
      · refine .inr ⟨hsame.trans hidle, fun hmem => ?_⟩
        rw [hitems] at hmem
        exact (List.mem_cons.1 hmem).resolve_left fun heq => hbell (Item.cue.inj heq).symm
      · exact .inl hmem

/-- A turn of the worker, unless it interrupts the job. -/
theorem Tearing.workerTurn (h : k.Tearing) (hr : k.lane.ready = .worker :: rest)
    (hp : k.lane.post ≠ .watching)
    (ht : k.Turned rest ((k.pop rest).lane.tend e).1 k') : k'.Tearing := by
  -- A worker interrupts the body only if it watches it.
  have hcall : ((k.pop rest).lane.tend e).1.flight.bodyCall = k.lane.flight.bodyCall :=
    ((k.pop rest).lane.bodyCall_tend e).resolve_right fun hw => hp hw.1
  have hbody : ((k.pop rest).lane.tend e).1.flight.body = k.lane.flight.body ∧
      ((k.pop rest).lane.tend e).1.flight.releaseCall = k.lane.flight.releaseCall ∧
      .drop .release ∉ ((k.pop rest).lane.tend e).1.orders := by
    by_cases haway : (k.pop rest).lane.post = .away
    · unfold Lane.tend
      rw [haway]
      exact ⟨rfl, rfl, List.not_mem_nil⟩
    · have htends := (k.pop rest).lane.tends_tend e haway
      exact ⟨htends.body, htends.releaseCall, fun hdrop => by cases htends.orders _ hdrop⟩
  have hitems : ∀ c, .cue c ∈ k.lane.items → .cue c ∈ rest ++ k.lane.later := by
    intro c hc
    simpa [Lane.items, hr] using hc
  refine h.turn (hr ▸ List.sublist_cons_self _ _) ht hbody.1 hcall (Lane.release_tend e _) ?_
    (Lane.isEarly_tend e _) fun time hturn => hturn.turn ht hbody.2.2 (hitems _) ?_
  · rw [hbody.2.1]
    exact h.uncut
  · exact fun hidle => .inr ⟨hbody.2.1.trans hidle, hitems _⟩

/-- No time passes beyond the next turn of the release, and so its grace period is not over. -/
theorem Tearing.tick (h : k.Tearing) {t : Nat} (hr : k.lane.ready = [])
    (hlater : k.lane.later ≠ [] → t = k.lane.around.now)
    (hdue : ∀ c ∈ k.chimes, ∀ u, c.due = .time u → (t : Int) ≤ max (k.lane.around.now : Int) u) :
    (k.tick t).Tearing := by
  obtain ⟨time, n, hdone, ⟨hnow, hnext⟩, hgrace⟩ := h.slack
  have hitems := items_tick hr t
  -- Time stands still as long as somebody is to have a turn.
  have hurgent : ∀ i, i ∈ k.lane.items → t ≤ time := by
    intro i hi
    have hne : k.lane.later ≠ [] := by
      rintro hnil
      rw [Lane.items, hr, hnil] at hi
      cases hi
    rw [hlater hne]
    exact hnow
  -- The clock does not pass the time for which the release has set its timer.
  have hle : t ≤ time := by
    rcases hnext with hmem | ⟨-, hmem | hmem⟩
    · exact hurgent _ hmem
    · exact hurgent _ hmem
    · have := hdue _ hmem time rfl
      omega
  refine ⟨⟨h.undisturbed.idle, ?_, ?_⟩, h.body, h.uncut, time, n, hdone, ⟨hle, ?_⟩, ?_⟩
  · exact fun c hc => h.undisturbed.timer c (List.mem_filter.1 hc).1
  · intro i hi
    rw [hitems] at hi
    rcases List.mem_append.1 hi with hi | hi
    · exact h.undisturbed.items i hi
    · obtain ⟨c, hc, hcome, rfl⟩ := mem_bells hi
      cases hbell : c.bell with
      | body => exact absurd hbell (h.undisturbed.timer c hc)
      -- The grace is longer than the release takes, so its bell has yet to ring.
      | grace =>
        obtain ⟨u, hu, hlt⟩ := hgrace c hc hbell
        rw [hu] at hcome
        have := of_decide_eq_true hcome
        omega
      | _ => rfl
  · rw [hitems]
    refine hnext.imp (List.mem_append_left _) fun hidle => ⟨hidle.1, ?_⟩
    rcases hidle.2 with hmem | hmem
    · exact .inl (List.mem_append_left _ hmem)
    · cases hcome : Due.hasCome t (.time time) with
      | true =>
        refine .inl (List.mem_append_right _ (List.mem_map.2 ⟨.release, List.mem_map.2 ?_, rfl⟩))
        exact ⟨_, List.mem_filter.2 ⟨hmem, hcome⟩, rfl⟩
      | false => exact .inr (List.mem_filter.2 ⟨hmem, by simp [hcome]⟩)
  · exact fun c hc => hgrace c (List.mem_filter.1 hc).1

/-- **A release in progress stays so until it is done, or until the worker interrupts the
job.** -/
theorem Tearing.passes (h : k.Tearing) (hs : k.lane.Summoned) (hp : k.Passes e k') :
    k'.Tearing ∨ .released ∈ k'.lane.notes ∨
      k.lane.post = .watching ∧ ∃ cause, k'.lane.post = .preempting cause := by
  obtain ⟨u, ending, hbody⟩ := h.body
  have hstill : k.Turned k.lane.ready k.lane.desk k' → k'.Tearing := fun ht =>
    h.turn (List.Sublist.refl _) ht rfl rfl rfl h.uncut (by simp [Lane.desk]) fun time hturn =>
      hturn.turn ht (by simp [Lane.desk]) id fun hidle => .inr ⟨hidle, id⟩
  cases hp with
  | @own i rest ready =>
    have ht := turned e k rest i
    cases i with
    | worker =>
      by_cases hpost : k.lane.post = .watching
      · have hongoing : (k.pop rest).lane.flight.body.isOver = false := by
          show k.lane.flight.body.isOver = false
          rw [hbody]
          rfl
        exact .inr (.inr ⟨hpost, (k.pop rest).lane.preempting_of_watching hpost hongoing⟩)
      · exact .inl (h.workerTurn ready hpost ht)
    | cue c =>
      by_cases hb : c = .body
      -- The body is not called, and so has no turn.
      · subst hb
        unfold Lane.Summoned at hs
        rw [if_pos h.undisturbed.idle, List.count_eq_zero] at hs
        exact absurd (by simp [Lane.items, ready]) hs
      by_cases hrel : c = .release
      · subst hrel
        exact (h.releaseTurn ready ht).imp id .inl
      · exact .inl (h.cueTurn ready hb hrel ht)
  | other now canceled => exact .inl (hstill (turned_other now))
  | cut => exact .inl (hstill k.turned_cut)
  | @round time ready now later due => exact .inl (h.tick ready later due)

/-- What was seen of a flight was seen of it. -/
theorem Passes.mem_notes (hp : k.Passes e k') {note : Note} (h : note ∈ k.lane.notes) :
    note ∈ k'.lane.notes := by
  have hturned : ∀ {rest d}, k.Turned rest d k' → note ∈ k'.lane.notes := by
    intro rest d ht
    rw [ht.notes]
    exact List.mem_append_left _ h
  cases hp with
  | @own i rest ready => exact hturned (turned e k rest i)
  | other now canceled => exact hturned (turned_other now)
  | cut => exact hturned k.turned_cut
  | round ready now later due => exact h

end Track

/-! ## Moments of a schedule -/

/-- The unit that a body has. -/
def Body.unit? : Body → Option ExecutionUnit
  | .stepping u _ | .releasing u _ _ => some u
  | _ => none

/-- Is a limit longer than some nanoseconds? -/
def Span.exceeds (n : Nat) : Span → Bool
  | .finite g => n < g
  | .endless => true
  | .undefined => false

namespace Engine

/-- The job of a flight has a unit at some moment of the schedule. -/
def Occupies (e : Engine) (jobs : List JobInstance) (fl : Floor σ) (f : Nat)
    (u : ExecutionUnit) : Prop :=
  ∃ m v, e.Leads (e.staff jobs fl) m ∧ m.lane? f = some v ∧ v.flight.body.unit? = some u

/-- The release of a unit, uninterrupted, is done in less time than the grace period. -/
def ReleasesInTime (e : Engine) (u : ExecutionUnit) : Prop :=
  ∃ n, (e.provisioner.release u).DoneWithin n ∧ e.grace.exceeds n = true

/-- A worker interrupts a job of the schedule while the release of its unit is in progress. -/
def CutsShort (e : Engine) (jobs : List JobInstance) (fl : Floor σ) (f : Nat) : Prop :=
  ∃ n n' v v', e.Leads (e.staff jobs fl) n ∧ e.Moves n n' ∧ n.lane? f = some v ∧ n'.lane? f =
      some v' ∧
    v.post = .watching ∧ (∃ cause, v'.post = .preempting cause) ∧
      v.flight.release.isPending = true

end Engine

/-- A release that begins will be done before its grace period is over. -/
theorem Track.Begins.tearing {e : Engine} {k : Track} {u : ExecutionUnit} (h : k.Begins e u)
    (hu : e.ReleasesInTime u) : k.Tearing := by
  obtain ⟨n, hdone, hexceeds⟩ := hu
  obtain ⟨ending, hbody⟩ := h.body
  refine ⟨h.undisturbed, ⟨u, ending, hbody⟩, by simp [h.called], k.lane.around.now, n, ?_,
    ⟨Nat.le_refl _, .inl h.next⟩, ?_⟩
  · rw [h.release]
    exact hdone
  · intro c hc hbell
    have hdue := h.grace c hc hbell
    cases hgrace : e.grace with
    | finite g =>
      rw [hgrace] at hdue hexceeds
      have hlt : (n : Int) < g := of_decide_eq_true hexceeds
      have hdue' : c.due = .time (k.lane.around.now + g) := (Option.some.inj hdue).symm
      exact ⟨_, hdue', by omega⟩
    | endless =>
      rw [hgrace] at hdue
      cases hdue
    | undefined =>
      rw [hgrace] at hexceeds
      cases hexceeds

namespace Floor

variable {e : Engine} {fl m m' : Floor σ} {jobs : List JobInstance} {f : Nat}

/-- How far a job has got that is not cut short: it has nothing to release, or its release is in
progress or done. -/
def TearsDown (f : Nat) (m : Floor σ) : Prop :=
  ∀ k, m.track? f = some k → k.Before ∨ k.Tearing ∨ .released ∈ k.lane.notes

/-- **What holds of a job that is not cut short holds after a move.** -/
theorem TearsDown.moves (h : m.TearsDown f) (hg : e.graceSeconds.isNonPositive = false)
    (he : e.Timely)
    (ht : m.Tended e jobs fl) (hin : m.InTime) (hf : fl.flights.length ≤ f)
    (hunits : ∀ u, e.Occupies jobs fl f u → e.ReleasesInTime u) (hcut : ¬e.CutsShort jobs fl f)
    (hm : e.Moves m m') : m'.TearsDown f := by
  intro k' hk'
  rcases track?_moves_back he ht.underway.orderly hin hm hk' with
    ⟨k, hk, hp, -⟩ | ⟨i, w, -, -, -, rfl⟩
  · obtain ⟨hv, -⟩ := lane_of_track? hk
    obtain ⟨hv', -⟩ := lane_of_track? hk'
    have hcustody := ht.custody f k.lane hf hv
    -- Before the release, in it, and after it.
    rcases h k hk with hbefore | htearing | hreleased
    · refine (hbefore.passes hg hcustody hp).imp id ?_
      rintro ⟨u, hbegins⟩
      obtain ⟨ending, hbody⟩ := hbegins.body
      refine .inl (hbegins.tearing (hunits u ⟨m', k'.lane, ht.leads.tail hm, hv', ?_⟩))
      rw [hbody]
      rfl
    · rcases htearing.passes hcustody.summoned hp with htearing' | hreleased | ⟨hpost, hpost'⟩
      · exact .inr (.inl htearing')
      · exact .inr (.inr hreleased)
      · obtain ⟨-, n, hdone, -⟩ := htearing.slack
        -- The worker has left a release that goes on, which is what cutting it short means.
        exact absurd ⟨m, m', k.lane, k'.lane, ht.leads, hm, hv, hv', hpost, hpost',
          hdone.isPending⟩ hcut
    · exact .inr (.inr (hp.mem_notes hreleased))
  · exact .inl (Track.before_launched i w _)

theorem Open.tearsDown_leads (ho : fl.Open e) (hg : e.graceSeconds.isNonPositive = false)
    (hp : e.Punctual jobs fl) (hf : fl.flights.length ≤ f)
    (hunits : ∀ u, e.Occupies jobs fl f u → e.ReleasesInTime u) (hcut : ¬e.CutsShort jobs fl f)
    (hl : e.Leads (e.staff jobs fl) m) : m.TearsDown f := by
  have hrun := hl.keeps (P := fun n => n.Tended e jobs fl ∧ n.InTime ∧ n.TearsDown f) ?_
    ⟨ho.tended_staff jobs, hp.inTime, ?_⟩
  · exact hrun.2.2
  · rintro n n' ⟨ht, hin, h⟩ hm
    exact ⟨ht.moves hg hm, hin.moves hp.limits ht.underway.orderly hm,
      h.moves hg hp.limits ht hin hf hunits hcut hm⟩
  · intro k hk
    obtain ⟨hv, -⟩ := lane_of_track? hk
    have hlt : f < (e.staff jobs fl).flights.length := length_of_lane hv
    exact absurd hlt (Nat.not_lt.2 hf)

end Floor

/-! ## Jobs that are abandoned -/

/-- What is logged of a job that its worker abandons. -/
def Note.abandonment : Note := .log .error "Job teardown did not finish in time; abandoning it"

/-- A worker that leaves a body that is not over, with a result, says so. -/
theorem Lane.abandonment_of_completed {e : Engine} {v : Lane} (hp : v.post ≠ .away)
    (hover : v.flight.body.isOver = false) {r : JobResult} (hr : .completed r ∈
        (v.tend e).1.notes) :
    .abandonment ∈ (v.tend e).1.notes := by
  -- Whatever an ongoing body does, the worker says that it abandons it.
  have hmessage : Engine.preemptionMessage v.idled.desk.flight.body =
      some "Job teardown did not finish in time; abandoning it" := by
    show Engine.preemptionMessage v.flight.body = _
    cases hb : v.flight.body with
    | ended ending =>
      rw [hb] at hover
      cases hover
    | _ => rfl
  have htended := v.tended_tend e hp
  generalize (v.tend e).2 = sq at htended
  cases htended with
  | preempts post reason desk => exact absurd hr (not_mem_logs desk.logged.1 r)
  | stops post watch notes orders => exact absurd hr (not_mem_logs notes r)
  | concludes uncut reason watch logs notes orders =>
    rcases reason with ⟨-, hbody⟩ | ⟨cause, hpost, hstatus⟩
    · rw [hbody] at hover
      cases hover
    · have hcut : decide (v.call = .cut) = false := decide_eq_false uncut
      unfold tend
      simp only [hpost, hcut]
      unfold Engine.afterPreempting
      rw [hmessage, hstatus]
      simp [Engine.conclude, Desk.move, Desk.log, Desk.see, Desk.edit, Desk.dropTimer,
          Desk.order, desk,
        Note.abandonment]

namespace Engine

variable {e : Engine} {fl fl' : Floor σ} {jobs : List JobInstance} {s : ScheduleReport} {f : Nat}

/-- What was seen of a flight at a moment is in the report. -/
theorem noted_of_leads {n m : Floor σ} (h : n.Orderly) (hl : e.Leads n m) {v : Lane}
    (hv : n.lane? f = some v) {note : Note} (hnote : note ∈ v.notes) :
    note ∈ (m.reportOf jobs).noted f := by
  have hseen := hl.keeps (P := fun k => k.Orderly ∧ ∃ v, k.lane? f = some v ∧ note ∈ v.notes) ?_
    ⟨h, v, hv, hnote⟩
  · obtain ⟨-, w, hw, hmem⟩ := hseen
    rw [noted_reportOf hw]
    exact hmem
  · rintro k k' ⟨hk, w, hw, hmem⟩ hm
    obtain ⟨w', hw', -⟩ := Floor.lane?_moves hk.numbered hm hw
    obtain ⟨new, hnew, -⟩ := Floor.seenOf_moves hk.numbered hm f
    refine ⟨hk.moves hm, w', hw', ?_⟩
    obtain ⟨x, -, rfl⟩ := Floor.lane?_eq_some.1 hw
    obtain ⟨x', -, rfl⟩ := Floor.lane?_eq_some.1 hw'
    unfold Lane.notes at hmem ⊢
    show note ∈ (seenOf f k'.seen).map Prod.snd
    rw [hnew, List.map_append]
    exact List.mem_append_left _ hmem

/-- That a job was abandoned is in the log. -/
theorem Abandons.logged (h : e.Abandons jobs fl f) (ho : e.Opens fl)
    (hgrace : e.graceSeconds.isNonPositive = false) (hjobs : jobs ≠ [])
    (hrun : e.reportSchedule jobs fl = some (s, fl')) (hfinished : s.ending = .finished)
    (hf : fl.flights.length ≤ f) : .abandonment ∈ s.noted f := by
  obtain ⟨m, rest, hl, hready, rfl, -⟩ := reportSchedule_eq_some hjobs hrun
  have hstop : ¬m.Stopped := Floor.not_stopped_of_finished hfinished
  obtain ⟨n, n', v, v', hln, hm, hv, hv', hp, hp', hover⟩ := h
  have htended := ho.isOpen.tended_leads hgrace hln
  have horder := (htended.underway.moves hm).orderly
  have hnm : e.Leads n' m := hl.to_end hready (hln.tail hm)
  rcases htended.result_of_left hm hf hv hv' hp hp' with
    hs | ⟨u, t, r, rfl, hflight, hpost, -, -, -, hr⟩
  · exact absurd (hs.leads horder hnm) hstop
  · have hpost' : u.post ≠ .away := hpost ▸ hp
    have htold := Lane.abandonment_of_completed hpost' (hflight ▸ hover) hr
    refine noted_of_leads horder hnm hv' ?_
    rw [Lane.notes_workerTurn e hpost']
    exact List.mem_append_right _ htold

end Engine

/-! ## Reports -/

/-- A body that has a unit has something to release, or is in its steps. -/
theorem Track.Before.not_over {k : Track} (h : k.Before) (hc : k.lane.Custody)
    (hacquired : .acquired ∈ k.lane.notes) : k.lane.flight.body.isOver = false := by
  have hunit : unitNotes k.lane.notes ≠ [] :=
    List.ne_nil_of_mem (List.mem_filter.2 ⟨hacquired, rfl⟩)
  have hbody := hc.body
  cases hb : k.lane.flight.body with
  | ended ending =>
    rw [hb, h.release] at hbody
    rcases hbody with hh | ⟨-, hnone⟩
    · cases hh.1
    · exact absurd hnone hunit
  | _ => rfl

namespace Engine

variable {e : Engine} {fl fl' : Floor σ} {jobs : List JobInstance} {s : ScheduleReport} {f : Nat}

/-- **A release that needs less time than its grace period is done when the schedule is over**,
unless the job was abandoned, or its worker interrupted it while the release was in progress. -/
theorem released_unless_cutShort (ho : e.Opens fl) (hgrace : e.graceSeconds.isNonPositive =
    false)
    (hp : e.Punctual jobs fl) (hrun : e.reportSchedule jobs fl = some (s, fl'))
    (hfinished : s.ending = .finished) (hf : fl.flights.length ≤ f)
    (hlt : f < fl'.flights.length)
    (hacquired : .acquired ∈ s.noted f) (habandons : ¬e.Abandons jobs fl f)
    (hunits : ∀ u, e.Occupies jobs fl f u → e.ReleasesInTime u) :
    .released ∈ s.noted f ∨ e.CutsShort jobs fl f := by
  by_contra hnot
  rw [not_or] at hnot
  by_cases hjobs : jobs = []
  · subst hjobs
    rw [e.reportSchedule_nil] at hrun
    cases hrun
    exact absurd hlt (Nat.not_lt.2 hf)
  obtain ⟨m, rest, hl, hready, rfl, rfl⟩ := reportSchedule_eq_some hjobs hrun
  have htended := ho.isOpen.tended_leads hgrace hl
  have hstop : ¬m.Stopped := Floor.not_stopped_of_finished hfinished
  obtain ⟨hdone, -, -⟩ := htended.underway.orderly.staffed.finished_all hready hstop
  obtain ⟨v, hv⟩ : ∃ v, m.lane? f = some v := Floor.exists_lane_of_lt hlt
  rw [noted_reportOf hv] at hacquired hnot
  -- The worker has left the job, and so the body is over.
  have hleft := (htended.left f v hf hv (Floor.away_of_done hdone hv)).resolve_left hstop
  have hover := (hleft.resolve_left habandons).1
  rcases ho.isOpen.tearsDown_leads hgrace hp hf hunits hnot.2 hl _ (Floor.track?_of_lane hv) with
    hbefore | htearing | hreleased
  · have hongoing := hbefore.not_over (htended.custody f v hf hv) hacquired
    rw [hover] at hongoing
    cases hongoing
  · obtain ⟨u, ending, hbody⟩ := htearing.body
    have hbody' : v.flight.body = _ := hbody
    rw [hbody'] at hover
    cases hover
  · exact hnot.1 hreleased

/-- An engine with ten seconds of grace, by whose plan the release of job `a` takes half a
second. -/
def slowRelease : Engine :=
  { rehearsal { ProvisionPlan.smooth with releaseMs := [("a", 500)] } 1 with
    graceSeconds := .ofInt 10 }

/-- A job with a script, and a second to run it. -/
def napping (script : Text) : List JobInstance := [.rehearsal "a" "" (.ofInt 1) [script]]

theorem releasesInTime_slowRelease (u : ExecutionUnit) : slowRelease.ReleasesInTime u := by
  refine ⟨500000000, ?_, by decide⟩
  show (ProvisionPlan.release { ProvisionPlan.smooth with releaseMs := [("a", 500)] }
    u).DoneWithin _
  unfold ProvisionPlan.release
  split
  · exact ⟨(), rfl⟩
  · rename_i ms hms
    obtain rfl : ms = 500 := by
      rw [List.lookup_cons] at hms
      split at hms
      · exact (Option.some.inj hms).symm
      · cases hms
    exact ⟨by decide, (), rfl⟩

/-- A job that is overtaken in its step gives its unit back, and the release is done. -/
theorem released_unless_cutShort_overtaken :
    ∃ s fl', slowRelease.reportSchedule (napping "sleep 5000") (.start 0 0 ()) =
        some (s, fl') ∧
      s.ending = .finished ∧ .acquired ∈ s.noted 0 ∧ (s.noted 0).any Note.overtakes = true ∧
      (.released ∈ s.noted 0 ∨
        slowRelease.CutsShort (napping "sleep 5000") (.start 0 0 ()) 0) := by
  have hrun : (slowRelease.reportIn 80 (napping "sleep 5000") (.start 0 0 ())).map
      (fun r => (r.1.ending, decide (.acquired ∈ r.1.noted 0), (r.1.noted 0).any Note.overtakes,
        decide (.abandonment ∈ r.1.noted 0), r.2.flights.length)) =
      some (.finished, true, true, false, 1) := by
    decide +kernel
  obtain ⟨⟨s, fl'⟩, hreport, hseen⟩ := Option.map_eq_some_iff.1 hrun
  simp only [Prod.mk.injEq, decide_eq_true_eq, decide_eq_false_iff_not] at hseen
  obtain ⟨hfinished, hacquired, hovertaken, hlog, hlength⟩ := hseen
  have hschedule := reportSchedule_of_reportIn rfl hreport
  have hgrace : slowRelease.graceSeconds.isNonPositive = false := by decide
  have hpunctual : slowRelease.Punctual (napping "sleep 5000") (.start 0 0 ()) :=
    ⟨⟨by decide, by decide⟩, by decide, Timer.inOrder_nil⟩
  -- An abandoned release would have been logged.
  have habandons : ¬slowRelease.Abandons (napping "sleep 5000") (.start 0 0 ()) 0 :=
    fun h => hlog (h.logged (.start 0 0 ()) hgrace (by simp [napping]) hschedule hfinished
      (Nat.zero_le 0))
  refine ⟨s, fl', hschedule, hfinished, hacquired, hovertaken, ?_⟩
  exact released_unless_cutShort (.start 0 0 ()) hgrace hpunctual hschedule hfinished
      (Nat.zero_le 0)
    (by omega) hacquired habandons fun u _ => releasesInTime_slowRelease u

/-- **A release in progress is cut short by the timeout of the job**: it started at 875
milliseconds, needs half a second of its ten seconds of grace, and is never done. -/
theorem release_cutShort :
    ∃ s fl', slowRelease.reportSchedule (napping "sleep 875") (.start 0 0 ()) =
        some (s, fl') ∧
      s.ending = .finished ∧ .acquired ∈ s.noted 0 ∧
      ¬slowRelease.Abandons (napping "sleep 875") (.start 0 0 ()) 0 ∧
      (∀ u, slowRelease.ReleasesInTime u) ∧ (875000000, .releasing) ∈ s.seenOf 0 ∧
      .released ∉ s.noted 0 := by
  have hrun : (slowRelease.reportIn 80 (napping "sleep 875") (.start 0 0 ())).map
      (fun r => (r.1.ending, decide (.acquired ∈ r.1.noted 0),
          decide (.abandonment ∈ r.1.noted 0),
        decide ((875000000, .releasing) ∈ r.1.seenOf 0), decide (.released ∈ r.1.noted 0))) =
      some (.finished, true, false, true, false) := by
    decide +kernel
  obtain ⟨⟨s, fl'⟩, hreport, hseen⟩ := Option.map_eq_some_iff.1 hrun
  simp only [Prod.mk.injEq, decide_eq_true_eq, decide_eq_false_iff_not] at hseen
  obtain ⟨hfinished, hacquired, hlog, hreleasing, hreleased⟩ := hseen
  have hschedule := reportSchedule_of_reportIn rfl hreport
  refine ⟨s, fl', hschedule, hfinished, hacquired, fun h => hlog ?_, releasesInTime_slowRelease,
    hreleasing, hreleased⟩
  exact h.logged (.start 0 0 ()) (by decide) (by simp [napping]) hschedule hfinished
    (Nat.zero_le 0)

end Engine

end Conveyor
