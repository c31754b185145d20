import Conveyor.Proofs.Schedule.Awaiting
import Conveyor.Proofs.Schedule.Track

/-!
# Deadlines

A worker watches a job no longer than until its timeout, and waits for an interrupted body no
longer than its patience lasts, whatever the body, its unit and its scripts do.

- `Track.OnTime`: a job that is watched is within its timeout.
- `Track.Relieved`: a body that was interrupted is waited for within the patience of the worker.
- `Track.OnTime.passes`, `Track.Relieved.passes`: **moves keep it so**.
- `Track.Timed`: both, for a flight of a schedule.
- `Engine.Punctual`: no limit of a schedule is undefined.
- `Floor.Open.timed_leads`: **the deadlines of a schedule are kept at every moment of it**.
-/

namespace Conveyor

variable {σ : Type}

namespace Track

variable {e : Engine} {k k' : Track}

/-- A job that is watched is within its timeout, and its timeout will end the vigil. A job whose
body broke gets its result at once. -/
structure OnTime (k : Track) : Prop where
  armed : k.lane.post = .watching → ∀ due, k.lane.flight.timeoutDue = some due →
    k.Armed .watching due
  within : k.lane.post = .watching ∨ k.lane.post = .preempting .failed →
    ∀ u, k.lane.flight.timeoutDue = some (.time u) →
      (k.lane.around.now : Int) ≤ max (k.lane.flight.takenAt : Int) u

theorem OnTime.passes (h : k.OnTime) (hw : k.lane.Vigilant)
    (hidle : k.lane.post = .away → k.lane.call = .idle) (hp : k.Passes e k')
    (hp' : k.lane.Passes e k'.lane) : k'.OnTime := by
  have hsame := hp'.same hidle
  refine ⟨fun hpost due hdue => ?_, fun hpost u hdue => ?_⟩
  · have hpost₀ := hp'.watching hpost
    rw [hsame.timeoutDue] at hdue
    exact (h.armed hpost₀ due hdue).passes hp (by rw [hpost₀]; rfl) (by rw [hpost]; rfl)
  · rw [hsame.timeoutDue] at hdue
    rw [hsame.2.2]
    rcases hpost with hpost | hpost
    · have hpost₀ := hp'.watching hpost
      have hnow := (h.armed hpost₀ _ hdue).now_le hw hidle hp
      have hwithin := h.within (.inl hpost₀) u hdue
      omega
    · rcases hp'.preempting hidle hpost with hpost₀ | ⟨hpost₀, hnow⟩
      · rw [hp'.now_eq hidle (hw.urgent_of_failed hpost₀)]
        exact h.within (.inr hpost₀) u hdue
      · rw [hnow]
        exact h.within (.inl hpost₀) u hdue

theorem onTime_launched (i : JobInstance) (w : Nat) (s : Surroundings) :
    (launched i w s).OnTime := by
  refine ⟨fun _ due hdue _ => .inl ?_, fun _ u _ => ?_⟩
  · have hdue' : (Span.ofSeconds i.timeoutSeconds).due s.now = some due := hdue
    simp [launched, hdue', Vigil.bell]
  · exact Int.le_max_left _ _

/-- A body that was interrupted is waited for within the patience of the worker. `P` says when
bodies may be interrupted, or jobs have their results without that. -/
structure Relieved (e : Engine) (P : Nat → Prop) (k : Track) : Prop where
  watching : k.lane.post = .watching → P k.lane.around.now
  preempting : ∀ cause, k.lane.post = .preempting cause → ∃ p, P p ∧ p ≤ k.lane.around.now ∧
    ∀ q, e.patience = .finite q → (k.lane.around.now : Int) ≤ max (p : Int) (p + q) ∧
      k.Armed .preempting (.time (p + q))
  results : ∀ t r, (t, .completed r) ∈ k.lane.seen → ∃ p, P p ∧ p ≤ t ∧
    ∀ q, e.patience = .finite q → (t : Int) ≤ max (p : Int) (p + q)

end Track

namespace Engine

/-- A worker that interrupts a body sets the timer for its patience. -/
theorem set_patience_preempt (e : Engine) (cause : Cause) {d : Desk}
    (h : .drop .patience ∉ d.orders) :
    .set e.patience .patience ∈ (e.preempt cause d).orders ∧
      .drop .patience ∉ (e.preempt cause d).orders := by
  unfold preempt
  dsimp only
  split
  · simp [Desk.setTimer, Desk.push, Desk.order, h]
  · rw [Desk.cutBody_eq]
    simp only [Desk.setTimer, Desk.order, List.mem_append, List.mem_singleton]
    refine ⟨.inr trivial, ?_⟩
    rintro (hmem | hmem)
    · revert hmem
      split <;> simp [h]
    · cases hmem

theorem set_patience_afterWatching (e : Engine) (cut : Bool) {d : Desk} (ho : d.orders = [])
    (h : (e.afterWatching cut d).2 = .stay) :
    .set e.patience .patience ∈ (e.afterWatching cut d).1.orders ∧
      .drop .patience ∉ (e.afterWatching cut d).1.orders := by
  have hdrop : .drop .patience ∉
      ((d.edit fun x => { x with watch := .dismissed }).dropTimer .timeout).orders := by
    simp [Desk.dropTimer, Desk.order, Desk.edit, ho]
  revert h
  unfold afterWatching
  dsimp only
  split
  · exact fun _ => e.set_patience_preempt _ hdrop
  · split
    · exact fun h => by cases h
    · split
      · exact fun _ => e.set_patience_preempt _ hdrop
      · exact fun _ => e.set_patience_preempt _ hdrop
    · exact fun _ => e.set_patience_preempt _ hdrop
    · split
      · exact fun _ => e.set_patience_preempt _ hdrop
      · exact fun _ => e.set_patience_preempt _ hdrop

end Engine

namespace Track

variable {e : Engine} {k k' : Track} {P : Nat → Prop}

/-- The timers after a worker has interrupted a body. -/
theorem armed_of_preempts {rest : List Item} (hpost : k.lane.post = .watching) {cause : Cause}
    (hnext : ((k.pop rest).turn e .worker).lane.post = .preempting cause) {q : Int}
    (hq : e.patience = .finite q) :
    ((k.pop rest).turn e .worker).Armed .preempting (.time (k.lane.around.now + q)) := by
  intro _
  left
  have hne : (k.pop rest).lane.post ≠ .away := by
    intro haway
    rw [show (k.pop rest).lane.post = .watching from hpost] at haway
    cases haway
  have hstay : ((k.pop rest).lane.tend e).2 = .stay := by
    by_contra hsq
    have hleft : ((k.pop rest).lane.workerTurn e).post = .away := by
      rw [Lane.workerTurn_eq e hne, Lane.after]
      split
      · rename_i hsq'
        exact absurd hsq' hsq
      · rfl
    rw [show ((k.pop rest).turn e .worker).lane = (k.pop rest).lane.workerTurn e from rfl, hleft]
      at hnext
    cases hnext
  have htend : (k.pop rest).lane.tend e =
      e.afterWatching (decide ((k.pop rest).lane.call = .cut)) (k.pop rest).lane.idled.desk := by
    unfold Lane.tend
    rw [show (k.pop rest).lane.post = .watching from hpost]
  rw [htend] at hstay
  obtain ⟨hset, hdrop⟩ := e.set_patience_afterWatching _ rfl hstay
  rw [← htend] at hset hdrop
  exact Chime.mem_obey_foldl_set hset hdrop (by rw [hq]; rfl) _

/-- **Moves keep the patience of a worker.** What is left to show is that the times at which the
job is watched are fit for that. -/
theorem Relieved.passes (h : k.Relieved e P) (hw : k.lane.Vigilant)
    (hidle : k.lane.post = .away → k.lane.call = .idle) (hp : k.Passes e k')
    (hp' : k.lane.Passes e k'.lane)
    (hwatch : k'.lane.post = .watching → P k'.lane.around.now) : k'.Relieved e P := by
  rcases hp.quiet_or_turn with ⟨hpost, hseen⟩ | ⟨hne, rest, hready, rfl⟩
  -- The worker goes on waiting.
  · refine ⟨hwatch, fun cause hcause => ?_, fun t r hr => h.results t r (hseen t r hr)⟩
    rw [hpost] at hcause
    obtain ⟨p, hP, hle, hfinite⟩ := h.preempting cause hcause
    refine ⟨p, hP, Nat.le_trans hle (hp'.now_le hidle), fun q hq => ?_⟩
    obtain ⟨hnow, harmed⟩ := hfinite q hq
    have hnow' := harmed.now_le hw hidle hp
    have hvigil : k.lane.post.vigil? = some .preempting := by rw [hcause]; rfl
    refine ⟨by omega, harmed.passes hp hvigil ?_⟩
    rw [hpost, hcause]
    rfl
  -- The worker has its turn.
  · have hnow : ((k.pop rest).turn e .worker).lane.around.now = k.lane.around.now :=
      Lane.now_turn e (v := (k.pop rest).lane) hidle .worker
    cases Lane.served_workerTurn e (v := (k.pop rest).lane) hne with
    | @preempts cause post reason next results =>
      have hP := h.watching post
      refine ⟨hwatch, fun cause' hcause => ⟨_, hP, Nat.le_of_eq hnow.symm, fun q hq => ⟨?_, ?_⟩⟩,
        fun t r hr => h.results t r (results t r hr)⟩
      · rw [hnow]
        exact Int.le_max_left _ _
      · exact armed_of_preempts post hcause hq
    | @concludes status reason next results =>
      refine ⟨hwatch, fun cause' hcause => ?_, fun t r hr => ?_⟩
      · rw [show ((k.pop rest).turn e .worker).lane.post = .away from next] at hcause
        cases hcause
      · rcases results t r hr with hr | ⟨rfl, -⟩
        · exact h.results t r hr
        rcases reason with ⟨post, -⟩ | ⟨cause, post, -⟩
        · exact ⟨_, h.watching post, Nat.le_refl _, fun q hq => Int.le_max_left _ _⟩
        · obtain ⟨p, hP, hle, hfinite⟩ := h.preempting cause post
          exact ⟨p, hP, hle, fun q hq => (hfinite q hq).1⟩
    | stops post next results =>
      refine ⟨hwatch, fun cause' hcause => ?_, fun t r hr => h.results t r (results t r hr)⟩
      rw [show ((k.pop rest).turn e .worker).lane.post = .away from next] at hcause
      cases hcause

theorem relieved_launched (e : Engine) {i : JobInstance} {w : Nat} {s : Surroundings}
    (h : P s.now) :
    (launched i w s).Relieved e P := by
  refine ⟨fun _ => h, fun cause hcause => ?_, fun t r hr => ?_⟩
  · cases hcause
  · simp [launched, Lane.launched] at hr

/-- A time that is fit for a body to be interrupted may be replaced by a weaker one. -/
theorem Relieved.mono {Q : Nat → Prop} (h : k.Relieved e P) (hPQ : ∀ p, P p → Q p) :
    k.Relieved e Q := by
  refine ⟨fun hp => hPQ _ (h.watching hp), fun cause hcause => ?_, fun t r hr => ?_⟩
  · obtain ⟨p, hP, hrest⟩ := h.preempting cause hcause
    exact ⟨p, hPQ p hP, hrest⟩
  · obtain ⟨p, hP, hrest⟩ := h.results t r hr
    exact ⟨p, hPQ p hP, hrest⟩

end Track

/-! ## Deadlines of a schedule -/

/-- The times at which a job may still be watched: those up to its timeout. A timeout that is not
positive has come when the job is taken. -/
def Flight.Within (x : Flight) (time : Nat) : Prop :=
  ∀ u, x.timeoutDue = some (.time u) → (time : Int) ≤ max (x.takenAt : Int) u

namespace Track

variable {e : Engine} {k k' : Track} {first f : Nat}

/-- What is known of a track of a schedule whose flights start with a number. -/
structure Timed (e : Engine) (first f : Nat) (k : Track) : Prop where
  fine : k.lane.Fine e first f
  onTime : first ≤ f → k.OnTime
  relieved : first ≤ f → k.Relieved e k.lane.flight.Within

theorem Timed.idle (h : k.Timed e first f) : k.lane.post = .away → k.lane.call = .idle := by
  obtain ⟨past, -, hsound⟩ := h.fine.sound
  exact hsound.idle

theorem Timed.passes (h : k.Timed e first f) (hp : k.Passes e k')
    (hp' : k.lane.Passes e k'.lane) :
    k'.Timed e first f := by
  have honTime : first ≤ f → k'.OnTime := fun hf =>
    (h.onTime hf).passes (h.fine.vigilant hf) h.idle hp hp'
  refine ⟨h.fine.passes hp', honTime, fun hf => ?_⟩
  have hsame := hp'.same h.idle
  have hwithin : ∀ p, k.lane.flight.Within p → k'.lane.flight.Within p := by
    intro p hP u hu
    rw [hsame.timeoutDue] at hu
    rw [hsame.2.2]
    exact hP u hu
  exact ((h.relieved hf).mono hwithin).passes (h.fine.vigilant hf) h.idle hp hp'
    fun hpost => (honTime hf).within (.inl hpost)

theorem timed_launched (e : Engine) (hf : first ≤ f) (i : JobInstance) (w : Nat)
    (s : Surroundings) :
    (launched i w s).Timed e first f :=
  ⟨Lane.fine_launched e hf i w s, fun _ => onTime_launched i w s,
    fun _ => relieved_launched e ((onTime_launched i w s).within (.inl rfl))⟩

end Track

/-- No limit of a schedule is undefined, and the timers that are set before it are in order. -/
structure Engine.Punctual (e : Engine) (jobs : List JobInstance) (fl : Floor σ) : Prop where
  limits : e.Timely
  jobs : ∀ i ∈ jobs, i.isTimely = true
  timers : Timer.InOrder fl.timers

theorem Engine.Punctual.inTime {e : Engine} {jobs : List JobInstance} {fl : Floor σ}
    (h : e.Punctual jobs fl) : (e.staff jobs fl).InTime :=
  ⟨h.timers, h.jobs⟩

namespace Floor

variable {e : Engine} {fl m : Floor σ} {jobs : List JobInstance}

/-- **The deadlines of a schedule are kept at every moment of it.** -/
theorem Open.timed_leads (ho : fl.Open e) (hp : e.Punctual jobs fl)
    (hl : e.Leads (e.staff jobs fl) m) : m.Tracks (Track.Timed e fl.flights.length) := by
  have hstaff := ho.underway_staff jobs
  have hstart : (e.staff jobs fl).Tracks (Track.Timed e fl.flights.length) := by
    intro f k hk
    obtain ⟨hv, -⟩ := lane_of_track? hk
    have hlt : f < (e.staff jobs fl).flights.length := length_of_lane hv
    exact ⟨hstaff.lanes f k.lane hv, fun hf => absurd hlt (Nat.not_lt.2 hf),
      fun hf => absurd hlt (Nat.not_lt.2 hf)⟩
  have hnew : ∀ f i w s, (e.staff jobs fl).flights.length ≤ f → s.canceled = false →
      (Track.launched i w s).Timed e fl.flights.length f :=
    fun f i w s hf _ => Track.timed_launched e hf i w s
  exact hstart.leads hp.limits (fun _ _ _ h => h.passes) hnew hstaff.orderly hp.inTime hl

end Floor

end Conveyor
