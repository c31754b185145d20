import Conveyor.Proofs.Schedule.Vigil

/-!
# The results of flights

A job gets its result when its worker leaves it. The result tells of the steps what was seen of
them, whatever the body was doing at that moment, and its status has a reason.

- `Body.Sound.accounts`: **at any moment, all steps are accounted for**, or no unit was acquired.
- `Lane.Concludes`: what is known of a flight when it gets its result.
- `Warranted`: what the notes before a result say about it.
- `Lane.Judged`: all results of a flight are warranted; `Lane.Judged.passes` shows that moves
  keep it so.
-/

namespace Conveyor

/-! ## Steps -/

/-- The steps of a job that got no unit. -/
structure Unprovisioned (e : Engine) (i : JobInstance) (ns : List Note) (rs : List StepResult)
    (fault : Fault) : Prop where
  acquire : (e.provisioner.acquire i).Ends (.failed fault)
  steps : rs = .unprovisioned i fault :: skippedFrom 0 i.steps
  acquired : .acquired ∉ ns
  begun : begunAmong ns = []

theorem completeSteps_nil (steps : List StepSpec) :
    completeSteps steps [] = skippedFrom 0 steps :=
  completeSteps_of_labeled (.nil 0) steps

/-- **At any moment all steps are accounted for**, or no unit was acquired. -/
theorem Body.Sound.accounts {e : Engine} {i : JobInstance} {c : Bool} {ns : List Note} {b : Body}
    (h : b.Sound e i c ns) :
    Accounted i.steps (completeSteps i.steps (recordedAmong ns)) ∨
      ∃ fault, b = .ended (.done .failed) ∧ recordedAmong ns = [.unprovisioned i fault] ∧
        Unprovisioned e i ns (completeSteps i.steps (recordedAmong ns)) fault := by
  have hblank : Blank ns → Accounted i.steps (completeSteps i.steps (recordedAmong ns)) := by
    intro hb
    rw [hb.recorded, completeSteps_nil]
    exact accounted_skippedFrom i.steps
  cases b with
  | fresh => exact .inl (hblank h)
  | acquiring next => exact .inl (hblank h.1)
  | stepping u next =>
    obtain ⟨ms, hr, -, hon, -⟩ := h
    rw [← hr]
    exact .inl (Course.accounted hon)
  | releasing u ending hold =>
    obtain ⟨steps, hoff, -⟩ := h
    exact .inl hoff.1.accounted
  | ended ending =>
    cases h with
    | gone blank => exact .inl (hblank blank)
    | @refused fault acquire recorded begun acquired =>
      refine .inr ⟨fault, rfl, recorded, acquire, ?_, acquired, begun⟩
      rw [recorded]
      exact completeSteps_of_foreign (show provisioningIndex < 0 by decide) i.steps
    | ran course => exact .inl course.1.accounted
    | broken course => exact .inl course.1.accounted

/-- A body that is not over has recorded results of declared steps only. -/
theorem Body.Sound.declared {e : Engine} {i : JobInstance} {c : Bool} {ns : List Note} {b : Body}
    (h : b.Sound e i c ns) (hb : b.isOver = false) : ∀ r ∈ recordedAmong ns, 0 ≤ r.index := by
  intro r hr
  rcases h.accounts with ha | ⟨fault, rfl, -⟩
  · have hmem : r ∈ completeSteps i.steps (recordedAmong ns) := List.mem_append_left _ hr
    have hindex : r.index ∈ (List.range i.steps.length).map fun j : Nat => (j : Int) := by
      rw [← ha.indices]
      exact List.mem_map_of_mem hmem
    obtain ⟨j, -, hj⟩ := List.mem_map.1 hindex
    rw [← hj]
    exact Int.natCast_nonneg j
  · cases hb

/-- A body that ends well has run all steps, and one that ends with a result succeeds or
fails. -/
theorem Body.Finished.of_done {e : Engine} {i : JobInstance} {c : Bool} {ns : List Note}
    {status : JobStatus} (h : Body.Finished e i c ns (.done status)) :
    status = .failed ∨ status = .success ∧ Passed i.steps (recordedAmong ns) ∧
      begunAmong ns = i.steps.map StepSpec.script := by
  generalize hending : Ending.done status = ending at h
  cases h with
  | gone blank => cases hending
  | refused acquire recorded begun acquired =>
    cases hending
    exact .inl rfl
  | @ran ending course =>
    cases ending with
    | failed fault => cases hending
    | interrupted => cases hending
    | done succeeded =>
      cases hending
      cases succeeded with
      | false => exact .inl rfl
      | true =>
        refine .inr ⟨rfl, ?_⟩
        obtain ⟨hcourse, -⟩ := course
        generalize hscripts : begunAmong ns = scripts at hcourse
        generalize hresults : recordedAmong ns = results at hcourse
        cases hcourse with
        | passed passed => exact ⟨passed, rfl⟩
        | broken split passed index name status => rcases status with ⟨-, h⟩ | ⟨-, h⟩ <;> cases h
  | broken course => cases hending

/-! ## Conclusions -/

/-- What is known of a flight when it gets its result. -/
structure Lane.Concludes (e : Engine) (v : Lane) (r : JobResult) : Prop where
  result : r =
    e.resultAt v.flight.job (some v.flight.takenAt) v.around.now r.status v.flight.steps
  success : r.status = .success → v.flight.body = .ended (.done .success)
  failed : r.status = .failed → v.flight.body.isOver = true
  canceled : r.status = .canceled → v.post = .preempting .canceled
  timedOut : r.status = .timedOut → v.post = .preempting .timedOut

/-- Log entries are no results. -/
theorem Lane.not_mem_logs {ns : List Note} (h : ∀ n ∈ ns, ∃ level message, n =
    .log level message)
    (r : JobResult) : .completed r ∉ ns := by
  intro hmem
  obtain ⟨level, message, hn⟩ := h _ hmem
  cases hn

/-- The result that a worker gives, among its last notes. -/
theorem Engine.eq_of_mem_verdictNotes {e : Engine} {x : Flight} {time : Nat} {status : JobStatus}
    {r : JobResult} (h : .completed r ∈ e.verdictNotes x time status) :
    r = e.resultAt x.job (some x.takenAt) time status x.steps := by
  simpa [verdictNotes] using h

/-- The result of a body that ended by itself. -/
theorem Lane.concludes_of_done {e : Engine} {v : Lane} {past : List Note} (hs : v.Sound e past)
    {status : JobStatus} (hbody : v.flight.body = .ended (.done status)) :
    v.Concludes e (e.resultAt v.flight.job (some v.flight.takenAt) v.around.now status
        v.flight.steps) := by
  have hover : v.flight.body.isOver = true := by
    rw [hbody]
    rfl
  have hfinished := hs.body
  rw [hbody] at hfinished
  rcases Body.Finished.of_done hfinished with rfl | ⟨rfl, -⟩
  · exact ⟨rfl, (fun hst => by cases hst), fun _ => hover, (fun hst => by cases hst),
      (fun hst => by cases hst)⟩
  · exact ⟨rfl, fun _ => hbody, fun _ => hover, (fun hst => by cases hst),
      (fun hst => by cases hst)⟩

/-- The result of a flight whose body was interrupted, or given up. -/
theorem Lane.concludes_of_cause {e : Engine} {v : Lane} {cause : Cause}
    (hpost : v.post = .preempting cause)
    (hcause : cause.Holds v.around.canceled v.around.now v.flight) {status : JobStatus}
    (hstatus : cause.status? = some status) :
    v.Concludes e (e.resultAt v.flight.job (some v.flight.takenAt) v.around.now status
        v.flight.steps) := by
  cases cause with
  | canceled =>
    cases hstatus
    exact ⟨rfl, (fun hst => by cases hst), (fun hst => by cases hst), fun _ => hpost,
      (fun hst => by cases hst)⟩
  | timedOut =>
    cases hstatus
    exact ⟨rfl, (fun hst => by cases hst), (fun hst => by cases hst), (fun hst => by cases hst),
      fun _ => hpost⟩
  | failed =>
    cases hstatus
    obtain ⟨fault, hbody, -⟩ := hcause
    refine ⟨rfl, (fun hst => by cases hst), fun _ => ?_, (fun hst => by cases hst),
      (fun hst => by cases hst)⟩
    rw [hbody]
    rfl
  | stopped => cases hstatus

/-- **A result has a reason.** -/
theorem Lane.concludes_of_mem {e : Engine} {v : Lane} {past : List Note}
    (hcauses : ∀ cause, v.post = .preempting cause →
      cause.Holds v.around.canceled v.around.now v.flight)
    (hs : v.Sound e past) (hp : v.post ≠ .away) {r : JobResult}
    (hr : .completed r ∈ (v.tend e).1.notes) : v.Concludes e r := by
  have htended := v.tended_tend e hp
  generalize (v.tend e).2 = sq at htended
  cases htended with
  | preempts post reason desk => exact absurd hr (Lane.not_mem_logs desk.logged.1 r)
  | stops post watch notes orders => exact absurd hr (Lane.not_mem_logs notes r)
  | concludes uncut reason watch logs notes orders =>
    rw [notes] at hr
    obtain rfl := Engine.eq_of_mem_verdictNotes
      ((List.mem_append.1 hr).resolve_left (Lane.not_mem_logs logs r))
    rcases reason with ⟨-, hbody⟩ | ⟨cause, hpost, hstatus⟩
    · exact Lane.concludes_of_done hs hbody
    · exact Lane.concludes_of_cause hpost (hcauses cause hpost) hstatus

/-! ## Results and notes -/

/-- The job was overtaken before any failure of the acquisition was recorded. -/
def Overtaken (i : JobInstance) (ns : List Note) (cause : Cause) : Prop :=
  (cause = .canceled ∨ cause = .timedOut) ∧
    ∃ before after, ns = before ++ .log .warning (cause.warning i) :: after ∧
      ∀ r ∈ recordedAmong before, 0 ≤ r.index

/-- What the notes before a result say about it. -/
structure Warranted (e : Engine) (x : Flight) (time : Nat) (ns : List Note) (r : JobResult) :
    Prop where
  result : r = e.resultAt x.job (some x.takenAt) time r.status (recordedAmong ns)
  account : Accounted x.job.steps r.steps ∨
    ∃ fault, Unprovisioned e x.job ns r.steps fault ∧
      (r.status = .failed ∨ ∃ cause, cause.status? = some r.status ∧ Overtaken x.job ns cause)
  success : r.status = .success →
    Passed x.job.steps r.steps ∧ begunAmong ns = x.job.steps.map StepSpec.script
  late : r.status = .timedOut → x.overdueAt time = true

theorem Warranted.congr {e : Engine} {x y : Flight} {time : Nat} {ns : List Note} {r : JobResult}
    (h : Warranted e x time ns r) (hjob : y.job = x.job) (htaken : y.takenAt = x.takenAt) :
    Warranted e y time ns r := by
  refine ⟨?_, ?_, ?_, ?_⟩
  · rw [hjob, htaken]
    exact h.result
  · rw [hjob]
    exact h.account
  · rw [hjob]
    exact h.success
  · rw [Flight.overdueAt_congr hjob htaken]
    exact h.late

namespace Lane

variable {e : Engine} {v v' : Lane}

/-- All results of a flight are warranted, and it has none while the worker waits for it. -/
structure Judged (e : Engine) (v : Lane) : Prop where
  pending : v.post ≠ .away → ∀ r, .completed r ∉ v.notes
  overtaken : ∀ cause, v.post = .preempting cause → cause = .canceled ∨ cause = .timedOut →
    (∃ fault, v.flight.body = .ended (.failed fault)) ∨ Overtaken v.flight.job v.notes cause
  results : ∀ t r, (t, .completed r) ∈ v.seen → ∃ before after,
    v.seen = before ++ (t, .completed r) :: after ∧
      Warranted e v.flight t (before.map Prod.snd) r

/-- A result that is given is warranted. -/
theorem Judged.warranted (h : v.Judged e)
    (hcauses : ∀ cause, v.post = .preempting cause →
      cause.Holds v.around.canceled v.around.now v.flight) (hs : v.Sound e []) {r : JobResult}
    (hc : v.Concludes e r) {ms : List Note} (hms : ∀ n ∈ ms, n.quiet = true) :
    Warranted e v.flight v.around.now (v.notes ++ ms) r := by
  have hsteps : v.flight.steps = recordedAmong v.notes := hs.steps
  have hbody : v.flight.body.Sound e v.flight.job v.around.canceled v.notes := hs.body
  have hr : recordedAmong (v.notes ++ ms) = recordedAmong v.notes := by
    rw [recordedAmong_append, recordedAmong_quiet hms, List.append_nil]
  have hb : begunAmong (v.notes ++ ms) = begunAmong v.notes := by
    rw [begunAmong_append, begunAmong_quiet hms, List.append_nil]
  have hrsteps : r.steps = completeSteps v.flight.job.steps (recordedAmong v.notes) := by
    rw [hc.result, hsteps]
    rfl
  refine ⟨?_, ?_, fun hst => ?_, fun hst => ?_⟩
  · rw [hr, ← hsteps]
    exact hc.result
  · rcases hbody.accounts with ha | ⟨fault, hb', hrec, hu⟩
    · left
      rw [hrsteps]
      exact ha
    · refine .inr ⟨fault, ⟨hu.acquire, hrsteps.trans hu.steps, ?_, hb.trans hu.begun⟩, ?_⟩
      · intro hmem
        rcases List.mem_append.1 hmem with hmem | hmem
        · exact hu.acquired hmem
        · exact absurd (hms _ hmem) (by simp [Note.quiet])
      -- A body without a unit has not broken, so that the job was overtaken before it failed.
      have hover : ∀ cause, v.post = .preempting cause → cause = .canceled ∨ cause = .timedOut →
          Overtaken v.flight.job (v.notes ++ ms) cause := by
        intro cause hpost hcause
        rcases h.overtaken cause hpost hcause with ⟨fault', hb''⟩ | ⟨-, before, after, hn, hrec⟩
        · rw [hb'] at hb''
          cases hb''
        · exact ⟨hcause, before, after ++ ms, by rw [hn]; simp, hrec⟩
      cases hst : r.status with
      | failed => exact .inl rfl
      | success =>
        have hdone := hc.success hst
        rw [hb'] at hdone
        cases hdone
      | canceled =>
        exact .inr ⟨.canceled, rfl, hover _ (hc.canceled hst) (.inl rfl)⟩
      | timedOut =>
        exact .inr ⟨.timedOut, rfl, hover _ (hc.timedOut hst) (.inr rfl)⟩
  · have hdone := hc.success hst
    rw [hdone] at hbody
    rcases Body.Finished.of_done hbody with hf | ⟨-, hpassed, hbegun⟩
    · cases hf
    · refine ⟨?_, hb.trans hbegun⟩
      rw [hrsteps, completeSteps_of_all hpassed.1]
      exact hpassed
  · exact hcauses .timedOut (hc.timedOut hst)

/-- More notes, none of which is a result. -/
theorem Judged.results_append (h : v.Judged e) {new : List TimedNote}
    (hno : ∀ t r, (t, .completed r) ∉ new) {x : Flight} (hjob : x.job = v.flight.job)
    (htaken : x.takenAt = v.flight.takenAt) :
    ∀ t r, (t, .completed r) ∈ v.seen ++ new → ∃ before after,
      v.seen ++ new = before ++ (t, .completed r) :: after ∧
        Warranted e x t (before.map Prod.snd) r := by
  intro t r hmem
  obtain ⟨before, after, hsplit, hw⟩ :=
    h.results t r ((List.mem_append.1 hmem).resolve_right (hno t r))
  exact ⟨before, after ++ new, by rw [hsplit]; simp, hw.congr hjob htaken⟩

/-- A move that gives no result and does not change what the worker does. -/
theorem Judged.extend (h : v.Judged e) (new : List TimedNote) (hseen : v'.seen = v.seen ++ new)
    (hno : ∀ t r, (t, .completed r) ∉ new) (hjob : v'.flight.job = v.flight.job)
    (htaken : v'.flight.takenAt = v.flight.takenAt) (hpost : v'.post = v.post)
    (hbody : v.flight.body.isOver = true → v'.flight.body = v.flight.body) : v'.Judged e := by
  have hnotes : v'.notes = v.notes ++ new.map Prod.snd := by
    rw [notes, hseen, List.map_append]
    rfl
  refine ⟨?_, ?_, ?_⟩
  · rw [hpost, hnotes]
    intro hp r hmem
    rcases List.mem_append.1 hmem with hmem | hmem
    · exact h.pending hp r hmem
    · obtain ⟨⟨t, n⟩, hn, rfl⟩ := List.mem_map.1 hmem
      exact hno t r hn
  · rw [hpost, hjob, hnotes]
    intro cause hp hcause
    rcases h.overtaken cause hp hcause with ⟨fault, hb⟩ | ⟨-, before, after, hn, hrec⟩
    · exact .inl ⟨fault, (hbody (by rw [hb]; rfl)).trans hb⟩
    · exact .inr ⟨hcause, before, after ++ new.map Prod.snd, by rw [hn]; simp, hrec⟩
  · rw [hseen]
    exact h.results_append hno hjob htaken

/-- Notes of one moment that have no result among them. -/
theorem not_mem_timed {ns : List Note} (h : ∀ r, .completed r ∉ ns) (now t : Nat)
    (r : JobResult) :
    (t, .completed r) ∉ ns.map fun n => (now, n) := by
  intro hmem
  obtain ⟨n, hn, heq⟩ := List.mem_map.1 hmem
  rw [Prod.mk.injEq] at heq
  exact h r (heq.2 ▸ hn)

section

variable {d : Desk}

/-- A worker interrupts the body, or gives it up. -/
theorem Judged.preempts (h : v.Judged e) (hs : v.Sound e []) (hp : v.post ≠ .away)
    (htends : v.idled.desk.Tends e d) {cause : Cause} {cut : Bool}
    (reason : Preempts cut v.flight cause) (desk : d.Preempted v.flight cause) :
    (v.idled.put d).Judged e := by
  have hno := not_mem_logs desk.logged.1
  have hjob : (v.idled.put d).flight.job = v.flight.job := (job_put ..).trans htends.job
  have htaken : (v.idled.put d).flight.takenAt = v.flight.takenAt :=
    (takenAt_put ..).trans htends.takenAt
  have hbody : (v.idled.put d).flight.body = v.flight.body := (body_put ..).trans htends.body
  refine ⟨?_, ?_, ?_⟩
  · intro _ r hmem
    rw [notes_put] at hmem
    rcases List.mem_append.1 hmem with hmem | hmem
    · exact h.pending hp r hmem
    · exact hno r hmem
  · rw [post_put, desk.post, hjob, hbody, notes_put]
    intro cause' hcause hoff
    obtain rfl := Post.preempting.inj hcause
    -- As long as the body goes on, only declared steps have results.
    have hlate : v.flight.body.isOver = false →
        Overtaken v.flight.job (v.idled.notes ++ d.notes) cause := by
      intro hover
      have hlogged := desk.logged.2 hover (by rintro rfl; rcases hoff with h | h <;> cases h)
      exact ⟨hoff, v.notes, [], by rw [hlogged]; rfl, hs.body.declared hover⟩
    cases reason with
    | stopped reason => rcases hoff with h | h <;> cases h
    | heard uncut ongoing watch => exact .inr (hlate ongoing)
    | gaveUp body cancellation => exact .inl ⟨_, body⟩
    | broke body crash => rcases hoff with h | h <;> cases h
    | late uncut ongoing watch => exact .inr (hlate ongoing)
  · rw [seen_put]
    exact h.results_append (not_mem_timed hno _) hjob htaken

/-- A worker gives the result: it is the last that is seen of the flight. -/
theorem Judged.concludes (h : v.Judged e)
    (hcauses : ∀ cause, v.post = .preempting cause →
      cause.Holds v.around.canceled v.around.now v.flight) (hs : v.Sound e []) (hp : v.post ≠
      .away)
    (htends : v.idled.desk.Tends e d) (hconcludes : ∀ r, .completed r ∈ d.notes →
        v.Concludes e r)
    {status : JobStatus} {ms : List Note} (logs : ∀ n ∈ ms, ∃ level message, n =
        .log level message)
    (notes : d.notes = ms ++ e.verdictNotes v.flight v.around.now status) :
    (v.idled.put d).retire.Judged e := by
  have hjob : (v.idled.put d).flight.job = v.flight.job := (job_put ..).trans htends.job
  have htaken : (v.idled.put d).flight.takenAt = v.flight.takenAt :=
    (takenAt_put ..).trans htends.takenAt
  have hseen : (v.idled.put d).seen = v.seen ++ d.notes.map fun n => (v.around.now, n) :=
    seen_put ..
  refine ⟨(fun ha => absurd rfl ha), (fun _ hc => by cases hc), ?_⟩
  show ∀ t r, _ ∈ (v.idled.put d).seen → ∃ before after, (v.idled.put d).seen = _ ∧ _
  rw [hseen]
  intro t r hmem
  have hnew : (t, Note.completed r) ∈ d.notes.map fun n => (v.around.now, n) := by
    refine (List.mem_append.1 hmem).resolve_left fun hold => ?_
    exact h.pending hp r (List.mem_map.2 ⟨_, hold, rfl⟩)
  obtain ⟨n, hn, heq⟩ := List.mem_map.1 hnew
  rw [Prod.mk.injEq] at heq
  obtain ⟨rfl, rfl⟩ := heq
  have hc := hconcludes r hn
  have hr : r = e.resultAt v.flight.job (some v.flight.takenAt) v.around.now status
      v.flight.steps := by
    rw [notes] at hn
    exact Engine.eq_of_mem_verdictNotes
      ((List.mem_append.1 hn).resolve_left (not_mem_logs logs r))
  -- What is said before the result: that the state changes, and maybe an error.
  set before := ms ++ [Note.moved v.flight.job.id v.flight.state (.ended status)] with hbefore
  have hquiet : ∀ n ∈ before, n.quiet = true := by
    intro n hn
    rcases List.mem_append.1 hn with hn | hn
    · obtain ⟨level, message, rfl⟩ := logs n hn
      rfl
    · rw [List.mem_singleton.1 hn]
      rfl
  have hwarranted := (h.warranted hcauses hs hc hquiet).congr hjob htaken
  refine ⟨v.seen ++ before.map fun n => (v.around.now, n), [], ?_, ?_⟩
  · rw [notes, hr]
    simp [Engine.verdictNotes, hbefore]
  · have hmap : (v.seen ++ before.map fun n => (v.around.now, n)).map Prod.snd =
        v.notes ++ before := by
      simp [Lane.notes, Function.comp_def]
    rw [hmap]
    exact hwarranted

/-- A worker that is stopped gives no result. -/
theorem Judged.stops (h : v.Judged e) (htends : v.idled.desk.Tends e d)
    (hno : ∀ r, .completed r ∉ d.notes) : (v.idled.put d).retire.Judged e := by
  refine ⟨(fun ha => absurd rfl ha), (fun _ hc => by cases hc), ?_⟩
  show ∀ t r, _ ∈ (v.idled.put d).seen → ∃ before after, (v.idled.put d).seen = _ ∧ _
  rw [seen_put]
  exact h.results_append (not_mem_timed hno _) ((job_put ..).trans htends.job)
    ((takenAt_put ..).trans htends.takenAt)

end

/-- A turn of the worker. -/
theorem Judged.workerTurn (h : v.Judged e)
    (hcauses : ∀ cause, v.post = .preempting cause →
      cause.Holds v.around.canceled v.around.now v.flight) (hs : v.Sound e []) :
    (v.workerTurn e).Judged e := by
  by_cases hp : v.post = .away
  · rw [workerTurn_away e hp]
    exact h.extend [] (by simp [idled]) (by simp) rfl rfl rfl fun _ => rfl
  have htends := v.tends_tend e hp
  have hconcludes := fun r => v.concludes_of_mem (e := e) (r := r) hcauses hs hp
  have htended := v.tended_tend e hp
  rw [workerTurn_eq e hp, after]
  generalize hsq : (v.tend e).2 = sq at htended
  cases htended with
  | preempts post reason desk => exact h.preempts hs hp htends reason desk
  | concludes uncut reason watch logs notes orders =>
    exact h.concludes hcauses hs hp htends hconcludes logs notes
  | stops post watch notes orders => exact h.stops htends (not_mem_logs notes)

/-- **Every move keeps the results of a lane warranted.** -/
theorem Judged.passes (h : v.Judged e) (hv : v.Vigilant) (hs : v.Sound e [])
    (hp : v.Passes e v') : v'.Judged e := by
  cases hp with
  | @own i rest ready =>
    have hpop : { v with ready := rest }.Judged e := ⟨h.pending, h.overtaken, h.results⟩
    cases i with
    | worker => exact hpop.workerTurn hv.causes ⟨hs.idle, hs.steps, hs.body⟩
    | cue c =>
      obtain ⟨hpost, hno, hbody⟩ := e.stays_cueTurn (d := v.desk) rfl rfl c
      have hfits : v.desk.Fits (e.cueTurn c v.desk) := e.fits_cueTurn rfl rfl hs.idle c
      refine hpop.extend ((e.cueTurn c v.desk).notes.map fun n => (v.around.now, n)) ?_
        (not_mem_timed hno _) ?_ ?_ ?_ ?_
      · exact seen_put ..
      · exact (job_put ..).trans hfits.job
      · exact (takenAt_put ..).trans hfits.takenAt
      · exact (post_put ..).trans hpost
      · exact fun hover => (body_put ..).trans (hbody hover)
  | other now canceled =>
    rw [moveTo_eq]
    exact h.extend [] (by simp) (by simp) (job_heard ..) (takenAt_heard ..) rfl
      fun _ => body_heard ..
  | cut =>
    obtain ⟨call, items, hcut, -⟩ := v.cut_eq
    rw [hcut]
    exact h.extend [] (by simp) (by simp) rfl rfl rfl fun _ => rfl
  | round ready now later timeout =>
    exact h.extend [] (by simp [tick]) (by simp) rfl rfl rfl fun _ => rfl

theorem judged_launched (e : Engine) (i : JobInstance) (w : Nat) (s : Surroundings) :
    (launched i w s).Judged e := by
  refine ⟨fun _ r hmem => ?_, (fun _ hc => by cases hc), fun t r hmem => ?_⟩
  · simp [launched, notes] at hmem
  · simp [launched] at hmem

end Lane

end Conveyor
