import Conveyor.Proofs.Schedule.Sound

/-!
# Watching over a flight

Why a worker has a turn on its flight, and what it then does about it. A worker is called only if
the body is over, if the watch has seen the cancellation of the run, or if the timeout has come;
and as long as one of these is so and the worker does not know it, somebody is to have a turn, so
that no time passes.

- `Preempts`: why a worker interrupts the body of its flight.
- `Lane.Tended`: what a worker does in its turn; `Lane.tended_tend` says that there is nothing
  else.
- `Lane.Vigilant`: the invariant of the watch, the calls and the messages under way.
- `Lane.Vigilant.passes`: **every move keeps it.**
- `Lane.Vigilant.urgent_of_canceled`, `Lane.Vigilant.urgent_of_over`: no time passes while the
  worker has something to learn.
-/

namespace Conveyor

/-! ## What a worker does -/

/-- Why a worker that watched a flight interrupts its body, or gives it up. -/
inductive Preempts (cut : Bool) (x : Flight) : Cause → Prop
  /-- The schedule is stopped, or the body was interrupted by somebody else. -/
  | stopped (reason : cut = true ∨ x.body = .ended .interrupted) : Preempts cut x .stopped
  /-- The watch has seen the cancellation. -/
  | heard (uncut : cut = false) (ongoing : x.body.isOver = false) (watch : x.watch = .ended) :
      Preempts cut x .canceled
  /-- The steps have seen the cancellation. -/
  | gaveUp {fault : Fault} (body : x.body = .ended (.failed fault))
      (cancellation : fault.isCancellation = true) : Preempts cut x .canceled
  /-- The body broke. -/
  | broke {fault : Fault} (body : x.body = .ended (.failed fault))
      (crash : fault.isCancellation = false) : Preempts cut x .failed
  /-- Nothing else is left but the timeout. -/
  | late (uncut : cut = false) (ongoing : x.body.isOver = false) (watch : x.watch ≠ .ended) :
      Preempts cut x .timedOut

/-- What is said when a flight is overtaken. -/
def Cause.warning (i : JobInstance) : Cause → Text
  | .timedOut => Engine.timeoutMessage i
  | _ => Engine.cancelMessage i

/-- The log entries of a worker that interrupts a body. -/
def Preempts.Logged (x : Flight) (cause : Cause) (ns : List Note) : Prop :=
  (∀ n ∈ ns, ∃ level message, n = .log level message) ∧
    (x.body.isOver = false → cause ≠ .stopped → ns = [.log .warning (cause.warning x.job)])

/-- The desk of a worker that interrupts a body. -/
structure Desk.Preempted (x : Flight) (cause : Cause) (d : Desk) : Prop where
  post : d.post = .preempting cause
  watch : d.flight.watch = .dismissed
  bodyOver : x.body.isOver = true → .cue (.bodyOver .preempting) ∈ d.orders
  told : ∀ vigil, .cue (.bodyOver vigil) ∈ d.orders → x.body.isOver = true
  logged : Preempts.Logged x cause d.notes

/-- The last notes of a job that has its result. -/
def Engine.verdictNotes (e : Engine) (x : Flight) (time : Nat) (status : JobStatus) :
    List Note :=
  [.moved x.job.id x.state (.ended status),
   .completed (e.resultAt x.job (some x.takenAt) time status x.steps)]

/-- A body that is interrupted has a turn. -/
theorem Desk.cutBody_eq (d : Desk) :
    d.cutBody =
      { d with
        flight := { d.flight with bodyCall := .cut }
        orders := d.orders ++ .drop .body ::
          if d.flight.bodyCall = .idle then [.cue .body] else [] } := by
  unfold cutBody
  dsimp only
  split
  · simp [edit, dropTimer, order, push]
  · simp [edit, dropTimer, order]

/-- A body that has no ending goes on. -/
theorem Flight.isOver_eq_false {x : Flight} (h : ∀ ending, x.body ≠ .ended ending) :
    x.body.isOver = false := by
  cases hb : x.body with
  | ended ending => exact absurd hb (h ending)
  | fresh => rfl
  | acquiring next => rfl
  | stepping u next => rfl
  | releasing u ending hold => rfl

/-- Nothing has to be said when the body is over, or when everything is stopped. -/
theorem Preempts.logged_nil {x : Flight} {cause : Cause} (h : x.body.isOver = true ∨
    cause = .stopped) :
    Preempts.Logged x cause [] := by
  refine ⟨List.forall_mem_nil _, fun hover hcause => ?_⟩
  rcases h with h | h
  · rw [hover] at h
    cases h
  · exact absurd h hcause

/-- When the body is over anything may be said, and otherwise that the flight is overtaken. -/
theorem Preempts.logged_log {x : Flight} {cause : Cause} {level : LogLevel} {message : Text}
    (h : x.body.isOver = true ∨ level = .warning ∧ message = cause.warning x.job) :
    Preempts.Logged x cause [.log level message] := by
  refine ⟨by simp, fun hover _ => ?_⟩
  rcases h with h | ⟨rfl, rfl⟩
  · rw [hover] at h
    cases h
  · rfl

namespace Engine

theorem preempted_preempt (e : Engine) {cause : Cause} {d : Desk} {x : Flight}
    (hbody : d.flight.body = x.body) (hwatch : d.flight.watch = .dismissed)
    (ho : ∀ vigil, .cue (.bodyOver vigil) ∉ d.orders) (hlog : Preempts.Logged x cause d.notes) :
    (e.preempt cause d).Preempted x cause := by
  unfold preempt
  split
  -- A body that is over is not interrupted: its worker learns of its end at once.
  · rename_i ending hb
    have hover : x.body.isOver = true := by
      rw [← hbody, hb]
      rfl
    exact ⟨rfl, hwatch, fun _ => List.mem_append_right _ List.mem_cons_self, fun _ _ =>
      hover, hlog⟩
  -- A body that goes on is cut, and nobody has told the worker yet that it is over.
  · rename_i hb
    have hover : x.body.isOver = false := by
      rw [← hbody]
      exact Flight.isOver_eq_false hb
    dsimp only
    rw [Desk.cutBody_eq]
    refine ⟨rfl, hwatch, fun h => ?_, fun vigil hv => ?_, hlog⟩
    · rw [hover] at h
      cases h
    · refine absurd ?_ (ho vigil)
      simp only [Desk.setTimer, Desk.order] at hv
      split at hv <;> simpa using hv

/-- **What a worker does that watched a flight.** -/
theorem afterWatching_cases (e : Engine) (cut : Bool) {d : Desk} (hn : d.notes = [])
    (ho : d.orders = []) :
    (∃ cause, Preempts cut d.flight cause ∧ (e.afterWatching cut d).2 = .stay ∧
      (e.afterWatching cut d).1.Preempted d.flight cause) ∨
    ∃ status, cut = false ∧ d.flight.body = .ended (.done status) ∧
      (e.afterWatching cut d).2 = .free status ∧ (e.afterWatching cut d).1.flight.watch =
      .dismissed ∧
      (e.afterWatching cut d).1.notes = e.verdictNotes d.flight d.around.now status ∧
      (e.afterWatching cut d).1.orders = [.drop .timeout] := by
  have hno : ∀ vigil, Order.cue (.bodyOver vigil) ∉ d.orders ++ [.drop .timeout] := by simp [ho]
  have hquiet : ∀ cause, (d.flight.body.isOver = true ∨ cause = .stopped) →
      Preempts.Logged d.flight cause d.notes := by
    rw [hn]
    exact fun cause => Preempts.logged_nil
  have hsaid : ∀ cause level message, (d.flight.body.isOver = true ∨
      (level = .warning ∧ message = cause.warning d.flight.job)) →
      Preempts.Logged d.flight cause (d.notes ++ [.log level message]) := by
    rw [hn]
    exact fun cause level message => Preempts.logged_log
  -- In the order in which the worker looks: it is stopped, the body is done, has failed or was
  -- interrupted, or the body goes on.
  unfold afterWatching
  dsimp only
  split
  · rename_i hcut
    exact .inl ⟨.stopped, .stopped (.inl hcut), rfl, e.preempted_preempt rfl rfl hno
      (hquiet _ (.inr rfl))⟩
  · rename_i huncut
    have huncut : cut = false := by simpa using huncut
    split
    · rename_i status hb
      refine .inr ⟨status, huncut, hb, rfl, rfl, ?_, ?_⟩
      · simp [conclude, resultOf, Desk.move, Desk.see, Desk.edit, Desk.dropTimer, Desk.order, hn,
          verdictNotes]
      · simp [conclude, Desk.move, Desk.see, Desk.edit, Desk.dropTimer, Desk.order, ho]
    · rename_i fault hb
      have hover : d.flight.body.isOver = true := by rw [hb]; rfl
      split
      · rename_i hf
        exact .inl ⟨.canceled, .gaveUp hb hf, rfl, e.preempted_preempt rfl rfl hno
          (hsaid _ _ _ (.inl hover))⟩
      · rename_i hf
        exact .inl ⟨.failed, .broke hb (by simpa using hf), rfl, e.preempted_preempt rfl rfl hno
          (hsaid _ _ _ (.inl hover))⟩
    · rename_i hb
      exact .inl ⟨.stopped, .stopped (.inr hb), rfl, e.preempted_preempt rfl rfl hno
        (hquiet _ (.inr rfl))⟩
    · rename_i h1 h2 h3
      have hover : d.flight.body.isOver = false := by
        refine Flight.isOver_eq_false fun ending hb => ?_
        cases ending with
        | done status => exact h1 status hb
        | failed fault => exact h2 fault hb
        | interrupted => exact h3 hb
      split
      · rename_i hw
        exact .inl ⟨.canceled, .heard huncut hover hw, rfl, e.preempted_preempt rfl rfl hno
          (hsaid _ _ _ (.inr ⟨rfl, rfl⟩))⟩
      · rename_i hw
        exact .inl ⟨.timedOut, .late huncut hover hw, rfl, e.preempted_preempt rfl rfl hno
          (hsaid _ _ _ (.inr ⟨rfl, rfl⟩))⟩

/-- **What a worker does that waited for an interrupted body.** -/
theorem afterPreempting_cases (e : Engine) (cause : Cause) (cut : Bool) {d : Desk}
    (hn : d.notes = []) (ho : d.orders = []) :
    (e.afterPreempting cause cut d).1.flight.watch = d.flight.watch ∧
    (e.afterPreempting cause cut d).1.orders = [.drop .patience] ∧
    ((e.afterPreempting cause cut d).2 = .stop ∧ (cut = true ∨ cause = .stopped) ∧
        (∀ n ∈ (e.afterPreempting cause cut d).1.notes, ∃ level message, n =
            .log level message) ∨
      ∃ status ms, cut = false ∧ cause.status? = some status ∧
        (e.afterPreempting cause cut d).2 = .free status ∧
        (∀ n ∈ ms, ∃ level message, n = .log level message) ∧
        (e.afterPreempting cause cut d).1.notes =
          ms ++ e.verdictNotes d.flight d.around.now status) := by
  have hstopped : cause.status? = none → cause = .stopped := by
    intro h
    cases cause <;> first | rfl | cases h
  -- Only a worker that is stopped leaves the job without a status.
  unfold afterPreempting
  dsimp only
  split
  · rename_i hcut
    exact ⟨rfl, by simp [Desk.dropTimer, Desk.order, ho], .inl ⟨rfl, .inl hcut,
      by simp [Desk.dropTimer, Desk.order, hn]⟩⟩
  · rename_i huncut
    have huncut : cut = false := by simpa using huncut
    cases hmessage : preemptionMessage d.flight.body with
    | none =>
      cases hstatus : cause.status? with
      | some status =>
        refine ⟨rfl, ?_, .inr ⟨status, [], huncut, rfl, rfl, by simp, ?_⟩⟩
        · simp [conclude, Desk.move, Desk.see, Desk.edit, Desk.dropTimer, Desk.order, ho]
        · simp [conclude, resultOf, Desk.move, Desk.see, Desk.edit, Desk.dropTimer,
              Desk.order, hn,
            verdictNotes]
      | none =>
        refine ⟨rfl, ?_, .inl ⟨rfl, .inr (hstopped hstatus), ?_⟩⟩
        · simp [Desk.dropTimer, Desk.order, ho]
        · simp [Desk.dropTimer, Desk.order, hn]
    | some message =>
      cases hstatus : cause.status? with
      | some status =>
        refine ⟨rfl, ?_, .inr ⟨status, [.log .error message], huncut, rfl, rfl, by simp, ?_⟩⟩
        · simp [conclude, Desk.move, Desk.log, Desk.see, Desk.edit, Desk.dropTimer,
            Desk.order, ho]
        · simp [conclude, resultOf, Desk.move, Desk.log, Desk.see, Desk.edit, Desk.dropTimer,
              Desk.order,
            hn, verdictNotes]
      | none =>
        refine ⟨rfl, ?_, .inl ⟨rfl, .inr (hstopped hstatus), ?_⟩⟩
        · simp [Desk.log, Desk.see, Desk.dropTimer, Desk.order, ho]
        · simp [Desk.log, Desk.see, Desk.dropTimer, Desk.order, hn]

end Engine

/-- What a worker does in its turn on a flight. -/
inductive Lane.Tended (e : Engine) (v : Lane) (d : Desk) : Sequel → Prop
  /-- It interrupts the body, or gives it up, and waits for it. -/
  | preempts {cause : Cause} (post : v.post = .watching)
      (reason : Preempts (decide (v.call = .cut)) v.flight cause)
      (desk : d.Preempted v.flight cause) : Tended e v d .stay
  /-- The job has its result. -/
  | concludes {status : JobStatus} {ms : List Note} (uncut : v.call ≠ .cut)
      (reason : v.post = .watching ∧ v.flight.body = .ended (.done status) ∨
        ∃ cause, v.post = .preempting cause ∧ cause.status? = some status)
      (watch : d.flight.watch = .dismissed ∨ v.post ≠ .watching ∧ d.flight.watch =
          v.flight.watch)
      (logs : ∀ n ∈ ms, ∃ level message, n = .log level message)
      (notes : d.notes = ms ++ e.verdictNotes v.flight v.around.now status)
      (orders : ∀ c, .cue c ∉ d.orders) : Tended e v d (.free status)
  /-- It is stopped. -/
  | stops (post : ∃ cause, v.post = .preempting cause) (watch : d.flight.watch = v.flight.watch)
      (notes : ∀ n ∈ d.notes, ∃ level message, n = .log level message)
      (orders : ∀ c, .cue c ∉ d.orders) : Tended e v d .stop

/-- **The turns of a worker on its flight are these.** -/
theorem Lane.tended_tend (e : Engine) {v : Lane} (hp : v.post ≠ .away) :
    v.Tended e (v.tend e).1 (v.tend e).2 := by
  unfold tend
  cases hpost : v.post with
  | away => exact absurd hpost hp
  | watching =>
    dsimp only
    rcases e.afterWatching_cases (decide (v.call = .cut)) (d := v.idled.desk) rfl rfl with
      ⟨cause, hreason, hsq, hdesk⟩ | ⟨status, huncut, hbody, hsq, hwatch, hnotes, horders⟩
    · rw [hsq]
      exact .preempts hpost hreason hdesk
    · rw [hsq]
      exact .concludes (by simpa using huncut) (.inl ⟨hpost, hbody⟩) (.inl hwatch)
        (List.forall_mem_nil _) hnotes (by simp [horders])
  | preempting cause =>
    dsimp only
    obtain ⟨hwatch, horders, hcases⟩ := e.afterPreempting_cases cause (decide (v.call = .cut))
      (d := v.idled.desk) rfl rfl
    rcases hcases with ⟨hsq, -, hnotes⟩ | ⟨status, ms, huncut, hstatus, hsq, hms, hnotes⟩
    · rw [hsq]
      exact .stops ⟨cause, hpost⟩ hwatch hnotes (by simp [horders])
    · rw [hsq]
      exact .concludes (by simpa using huncut) (.inr ⟨cause, hpost, hstatus⟩)
        (.inr ⟨by simp [hpost], hwatch⟩) hms hnotes (by simp [horders])

/-! ## The invariant -/

/-- What a cause says about a flight at a time. -/
def Cause.Holds (c : Bool) (now : Nat) (x : Flight) : Cause → Prop
  | .canceled => c = true
  | .timedOut => x.overdueAt now = true
  | .failed => ∃ fault, x.body = .ended (.failed fault) ∧ fault.isCancellation = false
  | .stopped => True

theorem Flight.overdueAt_mono {x : Flight} {t t' : Nat} (ht : t ≤ t')
    (h : x.overdueAt t = true) :
    x.overdueAt t' = true := by
  unfold Flight.overdueAt at h ⊢
  cases hd : x.timeoutDue with
  | none =>
    rw [hd] at h
    cases h
  | some due =>
    rw [hd] at h
    cases due with
    | undefined => rfl
    | time u =>
      have hu : u ≤ t := by simpa [Due.hasCome] using h
      have hu' : u ≤ t' := by omega
      simpa [Due.hasCome] using hu'

/-- Two states of a flight with the same timeout. -/
theorem Flight.overdueAt_congr {x y : Flight} (hjob : y.job = x.job) (htaken : y.takenAt =
    x.takenAt)
    (t : Nat) : y.overdueAt t = x.overdueAt t := by
  unfold Flight.overdueAt Flight.timeoutDue
  rw [hjob, htaken]

/-- A cause that holds goes on holding. -/
theorem Cause.Holds.later {cause : Cause} {c c' : Bool} {t t' : Nat} {x y : Flight}
    (h : cause.Holds c t x) (hc : c = true → c' = true) (ht : t ≤ t') (hjob : y.job = x.job)
    (htaken : y.takenAt = x.takenAt) (hbody : x.body.isOver = true → y.body = x.body) :
    cause.Holds c' t' y := by
  cases cause with
  | canceled => exact hc h
  | timedOut =>
    show y.overdueAt t' = true
    rw [Flight.overdueAt_congr hjob htaken]
    exact Flight.overdueAt_mono ht h
  | failed =>
    obtain ⟨fault, hb, hf⟩ := h
    exact ⟨fault, (hbody (by rw [hb]; rfl)).trans hb, hf⟩
  | stopped => trivial

/-- The messages to the worker and to the watch. -/
def Item.isNews : Item → Bool
  | .worker | .cue .watch | .cue .watchOver | .cue (.bodyOver _) => true
  | _ => false

/-- Messages under way are true, and what a worker has to know is under way. -/
structure Lane.Vigilant (v : Lane) : Prop where
  /-- The watch waits only as long as the run is not canceled. -/
  waiting : v.flight.watch = .waiting → v.around.canceled = false
  alarmed : v.flight.watch = .called ∨ v.flight.watch = .ended → v.around.canceled = true
  dismissed : v.flight.watch = .dismissed ↔ v.post ≠ .watching
  listening : v.flight.watch = .fresh ∨ v.flight.watch = .called → .cue .watch ∈ v.items
  heard : v.flight.watch = .ended → v.call = .idle → .cue .watchOver ∈ v.items
  bodyOver : v.flight.body.isOver = true → v.call = .idle → ∀ vigil, v.post.vigil? = some vigil →
    .cue (.bodyOver vigil) ∈ v.items
  called : v.items.count .worker = if v.call = .idle then 0 else 1
  reason : v.post = .watching → v.call = .called →
    v.flight.body.isOver = true ∨ v.flight.watch = .ended ∨
      v.flight.overdueAt v.around.now = true
  rung : .cue (.bell .timeout) ∈ v.items → v.flight.overdueAt v.around.now = true
  told : ∀ vigil, .cue (.bodyOver vigil) ∈ v.items → v.flight.body.isOver = true
  alerted : .cue .watchOver ∈ v.items → v.flight.watch = .ended ∨ v.flight.watch = .dismissed
  causes : ∀ cause, v.post = .preempting cause →
    cause.Holds v.around.canceled v.around.now v.flight

namespace Lane

variable {e : Engine} {v v' : Lane}

/-- The order of the turns to come does not matter. -/
theorem Vigilant.congr (h : v.Vigilant) (hflight : v'.flight = v.flight)
    (hpost : v'.post = v.post)
    (hcall : v'.call = v.call) (haround : v'.around = v.around)
    (hitems : v'.items.Perm v.items) :
    v'.Vigilant := by
  have hmem : ∀ i, i ∈ v'.items ↔ i ∈ v.items := fun i => hitems.mem_iff
  have hcount := hitems.count_eq Item.worker
  obtain ⟨flight', post', call', around', ready', later', seen'⟩ := v'
  obtain ⟨flight, post, call, around, ready, later, seen⟩ := v
  cases hflight
  cases hpost
  cases hcall
  cases haround
  refine ⟨h.waiting, h.alarmed, h.dismissed, ?_, ?_, ?_, hcount.trans h.called, h.reason,
      ?_, ?_, ?_,
    h.causes⟩
  · exact fun hw => (hmem _).2 (h.listening hw)
  · exact fun hw hc => (hmem _).2 (h.heard hw hc)
  · exact fun hb hc vigil hv => (hmem _).2 (h.bodyOver hb hc vigil hv)
  · exact fun hi => h.rung ((hmem _).1 hi)
  · exact fun vigil hi => h.told vigil ((hmem _).1 hi)
  · exact fun hi => h.alerted ((hmem _).1 hi)

theorem items_moveTo (s : Surroundings) (v : Lane) :
    (v.moveTo s).items = v.items ++ hearing v.around.canceled s.canceled v.flight := by
  simp [items, moveTo_eq]

/-- A watch that is not dismissed is that of a worker that watches. -/
theorem Vigilant.watching_of_ne (h : v.Vigilant) (hw : v.flight.watch ≠ .dismissed) :
    v.post = .watching := by
  by_contra hp
  exact hw (h.dismissed.2 hp)

/-- The watch waits, and hears of the cancellation: the worker still watches, and knows of
nothing. -/
theorem Vigilant.hears (h : v.Vigilant) {s : Surroundings} (hnow : s.now = v.around.now)
    (hh : Hears v.around.canceled s.canceled v.flight) : (v.moveTo s).Vigilant := by
  have hwait : v.flight.watch = .waiting := hh.2.2
  have hwatching : v.post = .watching := h.watching_of_ne (by simp [hwait])
  have hflight : (v.moveTo s).flight = { v.flight with watch := .called } := by
    rw [moveTo_eq]
    exact if_pos hh
  have hpost : (v.moveTo s).post = v.post := by rw [moveTo_eq]
  have hcall : (v.moveTo s).call = v.call := by rw [moveTo_eq]
  have hitems : (v.moveTo s).items = v.items ++ [.cue .watch] := by
    rw [items_moveTo, hearing, if_pos hh]
  have hback : ∀ j, j ∈ (v.moveTo s).items → j ≠ .cue .watch → j ∈ v.items := by
    intro j hj hne
    rw [hitems] at hj
    exact (List.mem_append.1 hj).resolve_right (by simp [hne])
  -- Of the lane only the watch changes, and its turn is added.
  refine
    { waiting := by rw [hflight]; exact fun hw => by cases hw
      alarmed := by rw [around_moveTo]; exact fun _ => hh.2.1
      dismissed := by rw [hflight, hpost, hwatching]; simp
      listening := by rw [hitems]; exact fun _ =>
        List.mem_append_right _ (List.mem_singleton.2 rfl)
      heard := by rw [hflight]; exact fun hw => by cases hw
      bodyOver := ?_
      called := by rw [hitems, hcall, List.count_append, h.called]; rfl
      reason := ?_
      rung := ?_
      told := ?_
      alerted := ?_
      causes := by rw [hpost, hwatching]; exact fun cause hcause => by cases hcause }
  · rw [hflight, hcall, hpost, hitems]
    exact fun hb hidle vigil hv => List.mem_append_left _ (h.bodyOver hb hidle vigil hv)
  · rw [hflight, hpost, hcall, around_moveTo, hnow]
    intro hp hcalled
    rcases h.reason hp hcalled with hr | hr | hr
    · exact .inl hr
    · rw [hwait] at hr
      cases hr
    · exact .inr (.inr hr)
  · rw [hflight, around_moveTo, hnow]
    exact fun hi => h.rung (hback _ hi (by simp))
  · rw [hflight]
    exact fun vigil hi => h.told vigil (hback _ hi (by simp))
  · intro hi
    have ha := h.alerted (hback _ hi (by simp))
    rw [hwait] at ha
    rcases ha with ha | ha <;> cases ha

/-- A turn of somebody else, who may cancel the run. -/
theorem Vigilant.moveTo (h : v.Vigilant) {s : Surroundings} (hnow : s.now = v.around.now)
    (hc : v.around.canceled = true → s.canceled = true) : (v.moveTo s).Vigilant := by
  by_cases hh : Hears v.around.canceled s.canceled v.flight
  · exact h.hears hnow hh
  -- Nobody hears of it, so the surroundings are all that changes.
  · have hlane : v.moveTo s = { v with around := s } := by
      rw [moveTo_eq, Lane.heard, hearing, if_neg hh, if_neg hh, List.append_nil]
    rw [hlane]
    refine
      { waiting := fun hw => ?_
        alarmed := fun hw => hc (h.alarmed hw)
        dismissed := h.dismissed
        listening := h.listening
        heard := h.heard
        bodyOver := h.bodyOver
        called := h.called
        reason := ?_
        rung := ?_
        told := h.told
        alerted := h.alerted
        causes := fun cause hcause =>
          (h.causes cause hcause).later hc (Nat.le_of_eq hnow.symm) rfl rfl fun _ => rfl }
    · show s.canceled = false
      by_contra hs
      exact hh ⟨h.waiting hw, by simpa using hs, hw⟩
    · show _ → _ → _ ∨ _ ∨ v.flight.overdueAt s.now = true
      rw [hnow]
      exact h.reason
    · show _ → v.flight.overdueAt s.now = true
      rw [hnow]
      exact h.rung

/-- The next round. -/
theorem Vigilant.tick (h : v.Vigilant) {time : Nat} {bells : List Bell} (hr : v.ready = [])
    (hnow : v.around.now ≤ time)
    (htimeout : .timeout ∈ bells → v.flight.overdueAt time = true) :
    (v.tick time bells).Vigilant := by
  have hitems : (v.tick time bells).items = v.items ++ bells.map fun b => .cue (.bell b) := by
    simp [Lane.tick, items, hr]
  have hstill : ∀ j ∈ v.items, j ∈ (v.tick time bells).items := by
    intro j hj
    rw [hitems]
    exact List.mem_append_left _ hj
  have hback : ∀ j ∈ (v.tick time bells).items, j ∈ v.items ∨
      ∃ b ∈ bells, .cue (.bell b) = j := by
    intro j hj
    rw [hitems] at hj
    exact (List.mem_append.1 hj).imp_right List.mem_map.1
  -- Bells add turns and take none away, and only the one of the timeout has a reason of its own.
  refine
    { waiting := h.waiting
      alarmed := h.alarmed
      dismissed := h.dismissed
      listening := fun hw => hstill _ (h.listening hw)
      heard := fun hw hidle => hstill _ (h.heard hw hidle)
      bodyOver := fun hb hidle vigil hv => hstill _ (h.bodyOver hb hidle vigil hv)
      called := ?_
      reason := fun hp hcalled =>
        (h.reason hp hcalled).imp_right (Or.imp_right (Flight.overdueAt_mono hnow))
      rung := fun hi => ?_
      told := fun vigil hi => h.told vigil ((hback _ hi).resolve_right (by simp))
      alerted := fun hi => h.alerted ((hback _ hi).resolve_right (by simp))
      causes := fun cause hcause => (h.causes cause hcause).later id hnow rfl rfl fun _ => rfl }
  · have hno : (bells.map fun b => Item.cue (.bell b)).count .worker = 0 := by
      simp [List.count_eq_zero]
    rw [hitems, List.count_append, hno, h.called]
    rfl
  · rcases hback _ hi with hi | ⟨b, hb, heq⟩
    · exact Flight.overdueAt_mono hnow (h.rung hi)
    · cases heq
      exact htimeout hb

/-- The whole schedule is stopped. -/
theorem Vigilant.cut (h : v.Vigilant) : v.cut.Vigilant := by
  by_cases hp : v.post = .away
  · rw [cut_of_away hp]
    exact h
  by_cases hidle : v.call = .idle
  · rw [cut_of_idle hp hidle]
    -- To be cut is as good a reason for a turn as to be called.
    have hitems : ({ v with call := .cut }.push .worker).items = v.items ++ [.worker] := by
      simp [push, items]
    have hback : ∀ c, Item.cue c ∈ ({ v with call := .cut }.push .worker).items →
        .cue c ∈ v.items := by
      intro c hc
      rw [hitems] at hc
      exact (List.mem_append.1 hc).resolve_right (by simp)
    refine
      { waiting := h.waiting
        alarmed := h.alarmed
        dismissed := h.dismissed
        listening := by rw [hitems]; exact fun hw => List.mem_append_left _ (h.listening hw)
        heard := fun _ hc => by cases hc
        bodyOver := fun _ hc => by cases hc
        called := ?_
        reason := fun _ hc => by cases hc
        rung := fun hi => h.rung (hback _ hi)
        told := fun vigil hi => h.told vigil (hback _ hi)
        alerted := fun hi => h.alerted (hback _ hi)
        causes := h.causes }
    rw [hitems, List.count_append, h.called, if_pos hidle]
    rfl
  · rw [cut_of_called hp hidle]
    exact
      { h with
        heard := fun _ hc => by cases hc
        bodyOver := fun _ hc => by cases hc
        called := h.called.trans (if_neg hidle)
        reason := fun _ hc => by cases hc }

/-! ## Turns in the lane -/

/-- A flight that is put back, before the surroundings change. -/
def kept (d : Desk) (v : Lane) : Lane :=
  { v with
    flight := d.flight
    post := d.post
    call := d.call
    later := v.later ++ d.orders.filterMap Order.item? }

theorem vigilant_put {d : Desk} (hf : v.desk.Fits d) (h : (v.kept d).Vigilant) :
    (v.put d).Vigilant := by
  have hmoved := h.moveTo (s := d.around) hf.now fun hc => by
    rw [hf.canceled]
    simp [canceledAfter, desk, show v.around.canceled = true from hc]
  refine hmoved.congr ?_ ?_ ?_ ?_ ?_
  · rw [put_eq, moveTo_eq]
    rfl
  · rw [put_eq, moveTo_eq]
    rfl
  · rw [put_eq, moveTo_eq]
    rfl
  · rw [put_eq, around_moveTo]
  · rw [items_moveTo]
    simp only [items, put_eq, kept, List.append_assoc]
    exact (List.perm_append_comm.append_left _).append_left _

section

variable {i : Item} {rest : List Item} {d : Desk}

/-- What was to come and is not the turn that is taken is still to come. -/
theorem mem_kept_of_ne (hr : v.ready = i :: rest) {j : Item} (hj : j ∈ v.items) (hne : j ≠ i) :
    j ∈ ({ v with ready := rest }.kept d).items := by
  simp only [items, hr, List.cons_append, List.mem_cons, hne, false_or] at hj
  simp only [items, kept, ← List.append_assoc]
  exact List.mem_append_left _ hj

/-- What is to come was to come, or was just asked for. -/
theorem mem_items_of_kept (hr : v.ready = i :: rest) {j : Item}
    (hj : j ∈ ({ v with ready := rest }.kept d).items) :
    j ∈ v.items ∨ ∃ o ∈ d.orders, o.item? = some j := by
  simp only [items, kept, ← List.append_assoc] at hj
  rcases List.mem_append.1 hj with hj | hj
  · left
    rw [items, hr]
    exact List.mem_cons_of_mem i hj
  · right
    exact List.mem_filterMap.1 hj

theorem mem_kept_of_order {j : Item} {o : Order} (ho : o ∈ d.orders) (hj : o.item? = some j) :
    j ∈ (v.kept d).items :=
  List.mem_append_right _ (List.mem_append_right _ (List.mem_filterMap.2 ⟨o, ho, hj⟩))

/-- The turns of the worker that are to come. -/
theorem count_kept (hr : v.ready = i :: rest) :
    ({ v with ready := rest }.kept d).items.count Item.worker + (if i = .worker then 1 else 0) =
      v.items.count .worker + d.orders.count .worker := by
  have horders : (d.orders.filterMap Order.item?).count .worker = d.orders.count .worker := by
    induction d.orders with
    | nil => rfl
    | cons o os ih =>
      cases o with
      | cue c => simp [Order.item?, ih]
      | worker => simp [Order.item?, ih]
      | set span b =>
        rw [List.filterMap_cons_none rfl, List.count_cons_of_ne (by simp)]
        exact ih
      | drop b =>
        rw [List.filterMap_cons_none rfl, List.count_cons_of_ne (by simp)]
        exact ih
  simp only [items, kept, hr, List.count_append, List.cons_append, List.count_cons, horders]
  by_cases hi : i = .worker
  · simp [hi]
    omega
  · simp [hi]
    omega

/-- The cues that are to come after a turn that may ask for some only: the others were to come
before. -/
theorem mem_items_of_orders (hr : v.ready = i :: rest) {c : Cue}
    (hno : Order.cue c ∉ d.orders) (hc : Item.cue c ∈ ({ v with ready := rest }.kept d).items) :
    Item.cue c ∈ v.items := by
  refine (mem_items_of_kept hr hc).resolve_right ?_
  rintro ⟨o, ho, hitem⟩
  cases o with
  | cue c' =>
    cases hitem
    exact hno ho
  | worker => cases hitem
  | set span b => cases hitem
  | drop b => cases hitem

/-- A turn of body or release. -/
theorem Vigilant.works (h : v.Vigilant) (hr : v.ready = i :: rest) (hi : i.isNews = false)
    (hd : v.desk.Works e d) : ({ v with ready := rest }.kept d).Vigilant := by
  have hne : ∀ j : Item, j.isNews = true → j ≠ i := by
    rintro j hj rfl
    rw [hi] at hj
    cases hj
  have hold : ∀ j : Item, j.isNews = true → j ∈ v.items →
      j ∈ ({ v with ready := rest }.kept d).items :=
    fun j hj hmem => mem_kept_of_ne hr hmem (hne j hj)
  have hwatch : d.flight.watch = v.flight.watch := hd.watch
  have hpost : d.post = v.post := hd.post
  have hcall : d.call = v.call := hd.call
  have hoverdue : d.flight.overdueAt v.around.now = v.flight.overdueAt v.around.now :=
    Flight.overdueAt_congr hd.job hd.takenAt _
  -- Neither body nor release rings the timeout, or tells for the watch.
  have hunasked : ∀ c : Cue, (∀ post, (Order.cue c).ofBody e post = false) →
      .cue c ∉ d.orders := by
    intro c hno ho
    have hof := hd.orders _ ho
    rw [hno] at hof
    cases hof
  refine
    { waiting := fun hw => h.waiting (hwatch ▸ hw)
      alarmed := fun hw => h.alarmed (hwatch ▸ hw)
      dismissed := by
        show d.flight.watch = .dismissed ↔ d.post ≠ .watching
        rw [hwatch, hpost]
        exact h.dismissed
      listening := fun hw => hold _ rfl (h.listening (hwatch ▸ hw))
      heard := fun hw hidle => hold _ rfl (h.heard (hwatch ▸ hw) (hcall ▸ hidle))
      bodyOver := fun hb hidle vigil hv => ?_
      called := ?_
      reason := fun hp hc => ?_
      rung := fun hmem => ?_
      told := fun vigil hmem => ?_
      alerted := fun hmem => ?_
      causes := fun cause hcause =>
        (h.causes cause (hpost ▸ hcause)).later id (Nat.le_refl _) hd.job hd.takenAt hd.stays }
  · cases hover : v.flight.body.isOver with
    | true => exact hold _ rfl (h.bodyOver hover (hcall ▸ hidle) vigil (hpost ▸ hv))
    | false => exact mem_kept_of_order (hd.told hover hb vigil (hd.post ▸ hv)) rfl
  · have hnoworker : d.orders.count .worker = 0 := by
      rw [List.count_eq_zero]
      intro ho
      have hw := hd.orders _ ho
      cases hw
    have hcount := count_kept (d := d) hr
    rw [if_neg (hne .worker rfl).symm, hnoworker, h.called] at hcount
    show _ = if d.call = .idle then 0 else 1
    rw [hcall]
    simpa using hcount
  · have hreason := h.reason (hpost ▸ hp) (hcall ▸ hc)
    show d.flight.body.isOver = true ∨ d.flight.watch = .ended ∨
      d.flight.overdueAt v.around.now = true
    rw [hwatch, hoverdue]
    exact hreason.imp_left fun hb => by rw [hd.stays hb]; exact hb
  · show d.flight.overdueAt v.around.now = true
    rw [hoverdue]
    exact h.rung (mem_items_of_orders hr (hunasked _ fun _ => rfl) hmem)
  · show d.flight.body.isOver = true
    by_cases ho : Order.cue (.bodyOver vigil) ∈ d.orders
    · exact hd.bodyOver vigil ho
    · have hb := h.told vigil (mem_items_of_orders hr ho hmem)
      rw [hd.stays hb]
      exact hb
  · show d.flight.watch = .ended ∨ d.flight.watch = .dismissed
    rw [hwatch]
    exact h.alerted (mem_items_of_orders hr (hunasked _ fun _ => rfl) hmem)

/-- A flight that nothing was done about. -/
theorem kept_desk (u : Lane) : u.kept u.desk = u := by
  simp [kept, desk]

/-- A turn that does nothing: nobody missed what it was to tell. -/
theorem Vigilant.pop (h : v.Vigilant) (hr : v.ready = i :: rest) (hworker : i ≠ .worker)
    (hlistening : v.flight.watch = .fresh ∨ v.flight.watch = .called → i ≠ .cue .watch)
    (hheard : v.flight.watch = .ended → v.call = .idle → i ≠ .cue .watchOver)
    (hover : v.call = .idle → ∀ vigil, v.post.vigil? = some vigil → i ≠ .cue (.bodyOver vigil)) :
    { v with ready := rest }.Vigilant := by
  have hitems : v.items = i :: { v with ready := rest }.items := by simp [items, hr]
  have hold : ∀ j ∈ v.items, i ≠ j → j ∈ { v with ready := rest }.items := by
    intro j hj hne
    rw [hitems] at hj
    exact (List.mem_cons.1 hj).resolve_left hne.symm
  have hback : ∀ j ∈ { v with ready := rest }.items, j ∈ v.items := by
    intro j hj
    rw [hitems]
    exact List.mem_cons_of_mem i hj
  refine
    { h with
      listening := fun hw => hold _ (h.listening hw) (hlistening hw)
      heard := fun hw hidle => hold _ (h.heard hw hidle) (hheard hw hidle)
      bodyOver := fun hb hidle vigil hv => hold _ (h.bodyOver hb hidle vigil hv)
        (hover hidle vigil hv)
      called := ?_
      rung := fun hmem => h.rung (hback _ hmem)
      told := fun vigil hmem => h.told vigil (hback _ hmem)
      alerted := fun hmem => h.alerted (hback _ hmem) }
  have hcount := h.called
  rw [hitems, List.count_cons_of_ne hworker] at hcount
  exact hcount

/-- A message reaches the worker, which waits for it and is called. -/
theorem Vigilant.callWaiting (h : v.Vigilant) (hr : v.ready = i :: rest)
    (hnews : i ≠ .worker ∧ i ≠ .cue .watch) (hidle : v.call = .idle)
    (hreason : v.post = .watching → v.flight.body.isOver = true ∨ v.flight.watch = .ended ∨
      v.flight.overdueAt v.around.now = true) :
    ({ v with ready := rest }.kept
      (({ v.desk with call := .called } : Desk).order .worker)).Vigilant := by
  set d : Desk := ({ v.desk with call := .called } : Desk).order .worker with hd
  have horders : d.orders = [.worker] := by simp [hd, Desk.order, desk]
  have hback : ∀ c : Cue, Item.cue c ∈ ({ v with ready := rest }.kept d).items →
      .cue c ∈ v.items :=
    fun c => mem_items_of_orders hr (by simp [horders])
  refine
    { waiting := h.waiting
      alarmed := h.alarmed
      dismissed := h.dismissed
      listening := fun hw => mem_kept_of_ne hr (h.listening hw) hnews.2.symm
      heard := fun _ hc => by cases hc
      bodyOver := fun _ hc => by cases hc
      called := ?_
      reason := fun hp _ => hreason hp
      rung := fun hmem => h.rung (hback _ hmem)
      told := fun k hmem => h.told k (hback _ hmem)
      alerted := fun hmem => h.alerted (hback _ hmem)
      causes := h.causes }
  have hcount := count_kept (d := d) hr
  rw [if_neg hnews.1, horders, h.called, if_pos hidle] at hcount
  exact hcount

/-- A message reaches the worker, which is called if it waits for that. -/
theorem Vigilant.callWorker (h : v.Vigilant) (hr : v.ready = i :: rest) {vigil : Vigil}
    (hnews : i ≠ .worker ∧ i ≠ .cue .watch) (hover : ∀ k, i = .cue (.bodyOver k) → k = vigil)
    (hwatch : i = .cue .watchOver → vigil = .watching)
    (hreason : vigil = .watching → v.post = .watching →
      v.flight.body.isOver = true ∨ v.flight.watch = .ended ∨
        v.flight.overdueAt v.around.now = true) :
    ({ v with ready := rest }.kept
        ({ v with ready := rest }.desk.callWorker vigil)).Vigilant := by
  have hdesk : { v with ready := rest }.desk = v.desk := rfl
  rw [hdesk]
  unfold Desk.callWorker
  split
  · rename_i hwaits
    refine h.callWaiting hr hnews hwaits.2 fun hp => hreason ?_ hp
    have hv : v.post.vigil? = some vigil := hwaits.1
    rw [hp] at hv
    exact (Option.some.inj hv).symm
  · rename_i hwaits
    have hkept := kept_desk { v with ready := rest }
    rw [hdesk] at hkept
    rw [hkept]
    -- Had it been waiting for this message, it would have been called.
    refine h.pop hr hnews.1 (fun _ => hnews.2) (fun hw hidle hi => hwaits ⟨?_, hidle⟩)
      fun hidle k hk hi => hwaits ⟨?_, hidle⟩
    · have hp : v.post = .watching := h.watching_of_ne (by simp [hw])
      show v.post.vigil? = some vigil
      rw [hp, hwatch hi]
      rfl
    · rw [← hover k hi]
      exact hk

/-- The watch sees the cancellation, and tells the worker. -/
theorem Vigilant.endWatch (h : v.Vigilant) (hr : v.ready = .cue .watch :: rest)
    (hw : v.flight.watch = .fresh ∨ v.flight.watch = .called) (hc : v.around.canceled = true) :
    ({ v with ready := rest }.kept v.desk.endWatch).Vigilant := by
  have hp : v.post = .watching := h.watching_of_ne (by rcases hw with hw | hw <;> simp [hw])
  have horders : v.desk.endWatch.orders = [.cue .watchOver] := by
    simp [Desk.endWatch, Desk.push, Desk.order, Desk.edit, desk]
  have hback : ∀ c, c ≠ .watchOver →
      Item.cue c ∈ ({ v with ready := rest }.kept v.desk.endWatch).items → .cue c ∈ v.items :=
    fun c hne => mem_items_of_orders hr (by simp [horders, hne])
  -- The watch is over, and its turn asks for the one in which the worker learns of it.
  refine
    { waiting := fun hw => by cases hw
      alarmed := fun _ => hc
      dismissed := by
        show Watch.ended = .dismissed ↔ v.post ≠ .watching
        simp [hp]
      listening := by rintro (hw | hw) <;> cases hw
      heard := fun _ _ => mem_kept_of_order (by rw [horders]; exact List.mem_cons_self) rfl
      bodyOver := fun hb hidle vigil hv => mem_kept_of_ne hr (h.bodyOver hb hidle vigil hv)
        (by simp)
      called := ?_
      reason := fun _ _ => .inr (.inl rfl)
      rung := fun hmem => h.rung (hback _ (by simp) hmem)
      told := fun vigil hmem => h.told vigil (hback _ (by simp) hmem)
      alerted := fun _ => .inl rfl
      causes := fun cause hcause => ?_ }
  · have hcount := count_kept (d := v.desk.endWatch) hr
    rw [if_neg (by simp), horders, h.called] at hcount
    exact hcount
  · rw [show v.post = .preempting cause from hcause] at hp
    cases hp

/-- The watch begins to wait for the cancellation. -/
theorem Vigilant.startWatch (h : v.Vigilant) (hr : v.ready = .cue .watch :: rest)
    (hw : v.flight.watch = .fresh) (hc : v.around.canceled = false) :
    { v with ready := rest, flight := { v.flight with watch := .waiting } }.Vigilant := by
  have hp : v.post = .watching := h.watching_of_ne (by simp [hw])
  have hitems : v.items = .cue .watch :: { v with ready := rest }.items := by simp [items, hr]
  have hback : ∀ j ∈ { v with ready := rest }.items, j ∈ v.items := by
    intro j hj
    rw [hitems]
    exact List.mem_cons_of_mem _ hj
  refine
    { waiting := fun _ => hc
      alarmed := by rintro (hw | hw) <;> cases hw
      dismissed := by
        show Watch.waiting = .dismissed ↔ v.post ≠ .watching
        simp [hp]
      listening := by rintro (hw | hw) <;> cases hw
      heard := fun hw => by cases hw
      bodyOver := fun hb hidle vigil hv => ?_
      called := ?_
      reason := fun hp hcall => ?_
      rung := fun hmem => h.rung (hback _ hmem)
      told := fun vigil hmem => h.told vigil (hback _ hmem)
      alerted := fun hmem => ?_
      causes := fun cause hcause => ?_ }
  · have hmem := h.bodyOver hb hidle vigil hv
    rw [hitems] at hmem
    exact (List.mem_cons.1 hmem).resolve_left (by simp)
  · have hcount := h.called
    rw [hitems, List.count_cons_of_ne (by simp)] at hcount
    exact hcount
  · -- The watch was fresh, and thus was not what called the worker.
    rcases h.reason hp hcall with hr | hr | hr
    · exact .inl hr
    · rw [hw] at hr
      cases hr
    · exact .inr (.inr hr)
  · have ha := h.alerted (hback _ hmem)
    rw [hw] at ha
    rcases ha with ha | ha <;> cases ha
  · rw [show v.post = .preempting cause from hcause] at hp
    cases hp

/-- A turn of the watch. -/
theorem Vigilant.watchTurn (h : v.Vigilant) (hr : v.ready = .cue .watch :: rest) :
    ({ v with ready := rest }.kept v.desk.watchTurn).Vigilant := by
  unfold Desk.watchTurn
  split
  · rename_i hw
    have hw' : v.flight.watch = .fresh := hw
    split
    · rename_i hc
      exact h.endWatch hr (.inl hw') hc
    · rename_i hc
      have hc' : v.around.canceled = false := by simpa [desk] using hc
      have hkept : { v with ready := rest }.kept
          (v.desk.edit fun x => { x with watch := .waiting }) =
          { v with ready := rest, flight := { v.flight with watch := .waiting } } := by
        simp [kept, desk, Desk.edit]
      rw [hkept]
      exact h.startWatch hr hw' hc'
  · rename_i hw
    have hw' : v.flight.watch = .called := hw
    exact h.endWatch hr (.inr hw') (h.alarmed (.inl hw'))
  · rename_i hfresh hcall
    have hkept := kept_desk { v with ready := rest }
    have hdesk : { v with ready := rest }.desk = v.desk := rfl
    rw [hdesk] at hkept
    rw [hkept]
    refine h.pop hr (by simp) ?_ (fun _ _ => by simp) fun _ _ _ => by simp
    rintro (hw | hw)
    · exact absurd hw hfresh
    · exact absurd hw hcall

/-- The cause for which a worker gives up watching holds. -/
theorem Vigilant.holds (h : v.Vigilant) {past : List Note} (hs : v.Sound e past)
    (hcalled : v.call ≠ .idle) (hp : v.post = .watching) {cause : Cause}
    (hc : Preempts (decide (v.call = .cut)) v.flight cause) :
    cause.Holds v.around.canceled v.around.now v.flight := by
  cases hc with
  | stopped reason => trivial
  | heard uncut ongoing watch => exact h.alarmed (.inr watch)
  | @gaveUp fault body cancellation =>
    -- A body gives up because of a cancellation only if it saw that the run was canceled.
    have hbody := hs.body
    rw [body] at hbody
    generalize hending : Ending.failed fault = ending at hbody
    cases hbody with
    | gone blank => cases hending
    | refused acquire recorded begun acquired => cases hending
    | @ran ending course =>
      cases ending with
      | done succeeded => cases hending
      | interrupted => cases hending
      | failed fault' =>
        cases hending
        exact course.2 _ rfl cancellation
    | broken course => cases hending
  | broke body crash => exact ⟨_, body, crash⟩
  | late uncut ongoing watch =>
    have hcall : v.call = .called := by
      cases hvc : v.call with
      | idle => exact absurd hvc hcalled
      | called => rfl
      | cut =>
        rw [hvc] at uncut
        cases uncut
    -- The body is not over, and neither is the watch: it was the timeout that called the worker.
    rcases h.reason hp hcall with hr | hr | hr
    · rw [ongoing] at hr
      cases hr
    · exact absurd hr watch
    · exact hr

/-- Of what is still to come when a worker has left its flight, nothing is new. -/
theorem mem_items_of_retire (hr : v.ready = .worker :: rest)
    (hwatch : d.flight.watch = .dismissed) (horders : ∀ c, .cue c ∉ d.orders) {c : Cue}
    (hc : Item.cue c ∈ ({ v with ready := rest }.idled.put d).retire.items) :
    .cue c ∈ v.items := by
  have hput : Item.cue c ∈ ({ v with ready := rest }.idled.put d).items := by
    rcases List.mem_append.1 hc with hc | hc
    · exact List.mem_append_left _ (List.mem_filter.1 hc).1
    · exact List.mem_append_right _ (List.mem_filter.1 hc).1
  -- What is left are turns of the flight, and neither worker nor watch has asked for one.
  have hhear : hearing v.around.canceled d.around.canceled d.flight = [] := by
    refine if_neg fun hh => ?_
    have hw := hh.2.2
    rw [hwatch] at hw
    cases hw
  rw [put_eq] at hput
  simp only [items, idled, hhear, List.append_nil] at hput
  rw [items, hr]
  rcases List.mem_append.1 hput with hready | hlater
  · exact List.mem_append_left _ (List.mem_cons_of_mem _ hready)
  · rcases List.mem_append.1 hlater with hlater | hasked
    · exact List.mem_append_right _ hlater
    · obtain ⟨o, ho, hitem⟩ := List.mem_filterMap.1 hasked
      cases o with
      | cue c' =>
        cases hitem
        exact absurd ho (horders _)
      | worker => cases hitem
      | set span b => cases hitem
      | drop b => cases hitem

/-- A worker leaves its flight. -/
theorem Vigilant.leave (h : v.Vigilant) (hr : v.ready = .worker :: rest)
    (hd : { v with ready := rest }.idled.desk.Tends e d) (hwatch : d.flight.watch = .dismissed)
    (horders : ∀ c, .cue c ∉ d.orders) :
    ({ v with ready := rest }.idled.put d).retire.Vigilant := by
  have haround : d.around = v.around := hd.around
  have hbody : d.flight.body = v.flight.body := hd.body
  have hflight : ({ v with ready := rest }.idled.put d).retire.flight = d.flight := by
    show ({ v with ready := rest }.idled.put d).flight = d.flight
    rw [put_eq, haround]
    -- The watch is dismissed and the worker away: whoever has a turn yet was told before, and
    -- that still holds.
    refine if_neg fun hh => ?_
    have hc : v.around.canceled = false := hh.1
    have hc' : v.around.canceled = true := hh.2.1
    rw [hc] at hc'
    cases hc'
  have hwatch' : ({ v with ready := rest }.idled.put d).retire.flight.watch = .dismissed := by
    rw [hflight, hwatch]
  have haround' : ({ v with ready := rest }.idled.put d).retire.around = v.around := by
    show ({ v with ready := rest }.idled.put d).around = v.around
    rw [put_eq]
    exact haround
  have hback : ∀ c, Item.cue c ∈ ({ v with ready := rest }.idled.put d).retire.items →
      .cue c ∈ v.items := fun c => mem_items_of_retire hr hwatch horders
  refine
    { waiting := by rw [hwatch']; exact fun hw => by cases hw
      alarmed := by rw [hwatch']; rintro (hw | hw) <;> cases hw
      dismissed := by rw [hwatch']; exact ⟨(fun _ hp => by cases hp), fun _ => rfl⟩
      listening := by rw [hwatch']; rintro (hw | hw) <;> cases hw
      heard := by rw [hwatch']; exact fun hw => by cases hw
      bodyOver := fun _ _ vigil hv => by cases hv
      called := ?_
      reason := fun hp => by cases hp
      rung := ?_
      told := ?_
      alerted := fun _ => .inr hwatch'
      causes := fun _ hp => by cases hp }
  · show _ = 0
    rw [List.count_eq_zero]
    intro hmem
    rcases List.mem_append.1 hmem with hmem | hmem
    · simpa using (List.mem_filter.1 hmem).2
    · simpa using (List.mem_filter.1 hmem).2
  · rw [hflight, haround', Flight.overdueAt_congr hd.job hd.takenAt]
    exact fun hmem => h.rung (hback _ hmem)
  · rw [hflight, hbody]
    exact fun vigil hmem => h.told vigil (hback _ hmem)

/-- A worker has a turn only when it was called. -/
theorem Vigilant.called_of_turn (h : v.Vigilant) (hr : v.ready = .worker :: rest) :
    v.call ≠ .idle := by
  intro hidle
  have hcount := h.called
  rw [if_pos hidle, List.count_eq_zero] at hcount
  exact hcount (by simp [items, hr])

/-- A worker interrupts the body, or gives it up, and waits for it. -/
theorem Vigilant.preempts (h : v.Vigilant) (hr : v.ready = .worker :: rest) {cause : Cause}
    (hcause : cause.Holds v.around.canceled v.around.now v.flight)
    (htends : { v with ready := rest }.idled.desk.Tends e d)
    (desk : d.Preempted v.flight cause) :
    ({ v with ready := rest }.kept d).Vigilant := by
  have hbody : d.flight.body = v.flight.body := htends.body
  have hbell : Order.cue (.bell .timeout) ∉ d.orders := by
    intro ho
    have hof := htends.orders _ ho
    cases hof
  refine
    { waiting := ?_
      alarmed := ?_
      dismissed := ?_
      listening := ?_
      heard := ?_
      bodyOver := ?_
      called := ?_
      reason := ?_
      rung := ?_
      told := ?_
      alerted := fun _ => .inr desk.watch
      causes := ?_ }
  · show d.flight.watch = .waiting → _
    rw [desk.watch]
    exact fun hw => by cases hw
  · show d.flight.watch = .called ∨ d.flight.watch = .ended → _
    rw [desk.watch]
    rintro (hw | hw) <;> cases hw
  · show d.flight.watch = .dismissed ↔ d.post ≠ .watching
    rw [desk.watch, desk.post]
    simp
  · show d.flight.watch = .fresh ∨ d.flight.watch = .called → _
    rw [desk.watch]
    rintro (hw | hw) <;> cases hw
  · show d.flight.watch = .ended → _
    rw [desk.watch]
    exact fun hw => by cases hw
  · show d.flight.body.isOver = true → _ → ∀ vigil, d.post.vigil? = some vigil → _
    rw [hbody, desk.post]
    intro hb _ vigil hv
    obtain rfl := Option.some.inj hv
    exact mem_kept_of_order (desk.bodyOver hb) rfl
  -- The turn of the worker is used up, and the worker does not call itself.
  · have hnone : d.orders.count .worker = 0 := by
      rw [List.count_eq_zero]
      intro ho
      have hof := htends.orders _ ho
      cases hof
    have hcount := count_kept (d := d) hr
    rw [if_pos rfl, hnone, h.called, if_neg (h.called_of_turn hr)] at hcount
    have hcall : d.call = .idle := htends.call
    show ({ v with ready := rest }.kept d).items.count Item.worker = if d.call = .idle then
      0 else 1
    rw [if_pos hcall]
    omega
  · show d.post = .watching → _
    rw [desk.post]
    exact fun hp => by cases hp
  · show _ → d.flight.overdueAt v.around.now = true
    rw [Flight.overdueAt_congr htends.job htends.takenAt]
    exact fun hmem => h.rung (mem_items_of_orders hr hbell hmem)
  · show ∀ vigil, _ → d.flight.body.isOver = true
    rw [hbody]
    intro vigil hmem
    by_cases ho : Order.cue (.bodyOver vigil) ∈ d.orders
    · exact desk.told vigil ho
    · exact h.told vigil (mem_items_of_orders hr ho hmem)
  · show ∀ cause, d.post = .preempting cause → _
    rw [desk.post]
    intro cause' hcause'
    obtain rfl := Post.preempting.inj hcause'
    exact hcause.later id (Nat.le_refl _) htends.job htends.takenAt fun _ => hbody

/-- A turn of the worker. -/
theorem Vigilant.workerTurn (h : v.Vigilant) {past : List Note} (hs : v.Sound e past)
    (hr : v.ready = .worker :: rest) : ({ v with ready := rest }.workerTurn e).Vigilant := by
  have hcalled := h.called_of_turn hr
  have hp : v.post ≠ .away := fun ha => hcalled (hs.idle ha)
  have htends := Lane.tends_tend e (v := { v with ready := rest }) hp
  have htended := Lane.tended_tend e (v := { v with ready := rest }) hp
  rw [workerTurn_eq e (v := { v with ready := rest }) hp, after]
  generalize hd : { v with ready := rest }.tend e = r at htends htended
  obtain ⟨d, sq⟩ := r
  cases htended with
  | preempts post reason desk =>
    exact vigilant_put (htends.fits hp) (h.preempts hr (h.holds hs hcalled post reason)
      htends desk)
  | concludes uncut reason watch logs notes orders =>
    refine h.leave hr htends ?_ orders
    rcases watch with hw | ⟨hpost, hw⟩
    · exact hw
    · exact hw.trans (h.dismissed.2 hpost)
  | stops post watch notes orders =>
    refine h.leave hr htends (watch.trans (h.dismissed.2 ?_)) orders
    obtain ⟨cause, hcause⟩ := post
    rw [show v.post = .preempting cause from hcause]
    simp

/-- **Every move keeps a lane vigilant.** -/
theorem Vigilant.passes (h : v.Vigilant) {past : List Note} (hs : v.Sound e past)
    (hp : v.Passes e v') : v'.Vigilant := by
  cases hp with
  | @own i rest ready =>
    cases i with
    | worker => exact h.workerTurn hs ready
    | cue c =>
      have hfits : { v with ready := rest }.desk.Fits
          (e.cueTurn c { v with ready := rest }.desk) :=
        e.fits_cueTurn rfl rfl hs.idle c
      refine vigilant_put hfits ?_
      -- Turns of the body and of the release leave the watch alone. The others call the worker,
      -- each with its reason.
      cases c with
      | body => exact h.works ready rfl (e.works_bodyTurn rfl rfl)
      | release => exact h.works ready rfl (Desk.works_releaseTurn (e := e) rfl rfl)
      | releaseOver => exact h.works ready rfl (Desk.works_releaseOverTurn (e := e) rfl rfl)
      | watch => exact h.watchTurn ready
      | bodyOver vigil =>
        refine h.callWorker ready (by simp) (by simp) (by simp) fun hv hpost => .inl ?_
        exact h.told vigil (by simp [items, ready])
      | watchOver =>
        refine h.callWorker ready (by simp) (by simp) (by simp) fun _ hpost => .inr (.inl ?_)
        refine (h.alerted (by simp [items, ready])).resolve_right fun hw => ?_
        exact h.dismissed.1 hw hpost
      | bell b =>
        cases b with
        | body => exact h.works ready rfl (Desk.Works.refl (e := e) rfl rfl).callBody
        | release => exact h.works ready rfl (Desk.Works.refl (e := e) rfl rfl).callRelease
        | grace => exact h.works ready rfl (Desk.works_graceTurn (e := e) rfl rfl)
        | timeout =>
          refine h.callWorker ready (by simp) (by simp) (by simp) fun _ _ => .inr (.inr ?_)
          exact h.rung (by simp [items, ready])
        | patience =>
          exact h.callWorker ready (by simp) (by simp) (by simp) fun hv => by cases hv
  | other now canceled => exact h.moveTo now canceled
  | cut => exact h.cut
  | round ready now later timeout => exact h.tick ready now timeout

end

/-- A job that was just taken is watched over. -/
theorem vigilant_launched (i : JobInstance) (w : Nat) (s : Surroundings) :
    (launched i w s).Vigilant := by
  refine ⟨(fun hw => by cases hw), ?_, ?_, fun _ => by simp [launched, items],
      (fun hw => by cases hw),
    (fun hb => by cases hb), ?_, (fun _ hc => by cases hc), ?_, ?_, ?_,
    (fun _ hp => by cases hp)⟩
  · rintro (hw | hw) <;> cases hw
  · simp [launched, Flight.launch]
  · simp [launched, items]
  · simp [launched, items]
  · simp [launched, items]
  · simp [launched, items]

/-- A worker that is called is to have a turn. -/
theorem Vigilant.urgent_of_called (h : v.Vigilant) (hcalled : v.call ≠ .idle) :
    v.items ≠ [] := by
  intro hnil
  have hcount := h.called
  rw [hnil, if_neg hcalled] at hcount
  cases hcount

/-- As long as a worker watches a flight in a canceled run, somebody is to have a turn. -/
theorem Vigilant.urgent_of_canceled (h : v.Vigilant) (hp : v.post = .watching)
    (hc : v.around.canceled = true) : v.items ≠ [] := by
  cases hw : v.flight.watch with
  | fresh => exact List.ne_nil_of_mem (h.listening (.inl hw))
  | called => exact List.ne_nil_of_mem (h.listening (.inr hw))
  | waiting =>
    have hno := h.waiting hw
    rw [hc] at hno
    cases hno
  | ended =>
    by_cases hidle : v.call = .idle
    · exact List.ne_nil_of_mem (h.heard hw hidle)
    · exact h.urgent_of_called hidle
  | dismissed => exact absurd hp (h.dismissed.1 hw)

/-- As long as a worker waits for a body that is over, somebody is to have a turn. -/
theorem Vigilant.urgent_of_over (h : v.Vigilant) (hp : v.post ≠ .away)
    (hb : v.flight.body.isOver = true) : v.items ≠ [] := by
  by_cases hidle : v.call = .idle
  · cases hpost : v.post with
    | away => exact absurd hpost hp
    | watching => exact List.ne_nil_of_mem (h.bodyOver hb hidle .watching (by rw [hpost]; rfl))
    | preempting cause =>
      exact List.ne_nil_of_mem (h.bodyOver hb hidle .preempting (by rw [hpost]; rfl))
  · exact h.urgent_of_called hidle

/-- A worker is about to learn that a body that broke is over. -/
theorem Vigilant.urgent_of_failed (h : v.Vigilant) (hpost : v.post = .preempting .failed) :
    v.items ≠ [] := by
  obtain ⟨fault, hbody, -⟩ := h.causes .failed hpost
  refine h.urgent_of_over (fun haway => ?_) (by rw [hbody]; rfl)
  rw [haway] at hpost
  cases hpost

end Lane

end Conveyor
