import Conveyor.Proofs.Schedule.Accounts
import Conveyor.Proofs.Schedule.Alone
import Conveyor.Proofs.Schedule.Deadlines
import Conveyor.Proofs.Schedule.Rehearsal
import Conveyor.Proofs.Schedule.Roster

/-!
# Jobs do not see each other

A job gets the same result beside other jobs as alone, as long as nobody cancels the run:
whatever happens on its track happens on the track of a schedule of this job alone.

- `Lane.Spoiled`: the schedule is stopped before the job has its result.
- `Track.Shadowed`: how far a schedule of the job alone has got.
- `Track.Shadowed.passes`, `Floor.Open.shadowed_leads`: **it keeps up with every move of the
  schedule**.
- `Engine.isolated_results`: **each result of a schedule is that of a schedule of the job
  alone**.
-/

namespace Conveyor

variable {σ : Type}

/-! ## Schedules that are stopped -/

namespace Lane

variable {e : Engine} {v v' : Lane}

/-- The job has no result, and will not get any: its worker is stopped. -/
structure Spoiled (v : Lane) : Prop where
  pending : ∀ r, .completed r ∉ v.notes
  stopped : v.post = .away ∨ v.call = .cut ∨ v.post = .preempting .stopped

/-- A worker that is stopped interrupts the body. -/
theorem post_tend_of_cut (e : Engine) (hpost : v.post = .watching) (hcall : v.call = .cut) :
    (v.tend e).1.post = .preempting .stopped := by
  have htend : v.tend e =
      (e.preempt .stopped ((v.idled.desk.edit fun x => { x with watch := .dismissed }).dropTimer
        .timeout), .stay) := by
    unfold Lane.tend Engine.afterWatching
    rw [hpost, hcall]
    rfl
  rw [htend]
  unfold Engine.preempt Desk.cutBody
  dsimp only
  split
  · rfl
  · split <;> rfl

/-- A worker that is stopped leaves no result. -/
theorem Spoiled.workerTurn (h : v.Spoiled) (hp : v.post ≠ .away) : (v.workerTurn e).Spoiled := by
  have hquiet : (∀ n ∈ (v.tend e).1.notes, ∃ level message, n = .log level message) →
      ∀ r, .completed r ∉ (v.workerTurn e).notes := by
    intro hlogs r hr
    rw [notes_workerTurn e hp] at hr
    exact (List.mem_append.1 hr).elim (h.pending r) (not_mem_logs hlogs r)
  have hstay := stays_iff e hp
  have htended := v.tended_tend e hp
  generalize hsq : (v.tend e).2 = sq at htended hstay
  -- A worker that is cut or stopped gives no result: the two ways to do so contradict how the
  -- lane is spoiled.
  cases htended with
  | preempts post reason desk =>
    refine ⟨hquiet desk.logged.1, .inr (.inr ?_)⟩
    rcases h.stopped with hstop | hcall | hstop
    · exact absurd hstop hp
    · rw [workerTurn_eq e hp, after, hsq]
      dsimp only
      rw [put_eq]
      exact post_tend_of_cut e post hcall
    · rw [post] at hstop
      cases hstop
  | @concludes status ms uncut reason watch logs notes orders =>
    rcases h.stopped with hstop | hcall | hstop
    · exact absurd hstop hp
    · exact absurd hcall uncut
    · rcases reason with ⟨hpost, -⟩ | ⟨cause, hpost, hstatus⟩
      · rw [hstop] at hpost
        cases hpost
      · rw [hstop] at hpost
        cases hpost
        cases hstatus
  | stops post watch notes orders =>
    refine ⟨hquiet notes, .inl ?_⟩
    by_contra hne
    cases hstay.1 hne

/-- The call of a worker that is to be stopped. -/
theorem Passes.cut_or_turn (hp : v.Passes e v') (hidle : v.post = .away → v.call = .idle)
    (hcall : v.call = .cut) :
    v'.call = .cut ∨ ∃ rest, v' = ({ v with ready := rest } : Lane).workerTurn e := by
  cases hp with
  | @own i rest ready =>
    cases i with
    | cue c =>
      have hfits := e.fits_cueTurn (d := v.desk) rfl rfl hidle c
      left
      show (Lane.put (e.cueTurn c v.desk) { v with ready := rest }).call = .cut
      rw [put_eq]
      -- A turn of the flight may call a worker, but not one that is cut.
      rcases hfits.calls with ⟨-, hsame⟩ | ⟨-, hnone, -⟩
      · exact hsame.trans hcall
      · rw [show v.desk.call = .cut from hcall] at hnone
        cases hnone
    | worker => exact .inr ⟨rest, rfl⟩
  | other now canceled =>
    rw [moveTo_eq]
    exact .inl hcall
  | cut =>
    left
    unfold Lane.cut
    split
    · exact hcall
    · split <;> rfl
  | round ready now later timeout => exact .inl hcall

/-- **A job whose worker is stopped does not get a result.** -/
theorem Spoiled.passes (h : v.Spoiled) (hidle : v.post = .away → v.call = .idle)
    (hp : v.Passes e v') : v'.Spoiled := by
  have hturn : ∀ rest, v.post ≠ .away → (Lane.workerTurn e { v with ready := rest }).Spoiled :=
    fun rest hne => Spoiled.workerTurn (v := { v with ready := rest }) ⟨h.pending, h.stopped⟩ hne
  rcases hp.quiet_or_turn with ⟨hpost, hseen⟩ | ⟨hne, rest, -, rfl⟩
  · have hpending : ∀ r, .completed r ∉ v'.notes := by
      intro r hr
      obtain ⟨⟨t, n⟩, hmem, rfl⟩ := List.mem_map.1 hr
      exact h.pending r (List.mem_map.2 ⟨_, hseen t r hmem, rfl⟩)
    rcases h.stopped with hstop | hcall | hstop
    · exact ⟨hpending, .inl (hpost.trans hstop)⟩
    · rcases hp.cut_or_turn hidle hcall with hcut | ⟨rest, rfl⟩
      · exact ⟨hpending, .inr (.inl hcut)⟩
      · refine hturn rest fun haway => ?_
        rw [hidle haway] at hcall
        cases hcall
    · exact ⟨hpending, .inr (.inr (hpost.trans hstop))⟩
  · exact hturn rest hne

end Lane

/-! ## A schedule of the job alone -/

/-- A schedule of one job finishes, and every result of it has this verdict. -/
def Engine.Finds (e : Engine) (names processes : Nat) (i : JobInstance) (x : JobResult) : Prop :=
  ∃ m rest v, e.Leads (e.staff [i] (.start names processes ())) m ∧
      m.ready = .scheduler :: rest ∧
    Engine.endOf m = .finished ∧ m.lane? 0 = some v ∧ ∀ r, .completed r ∈ v.notes → r.undated = x

/-- How far a schedule of the job alone has got while the job is on a track. -/
inductive Track.Shadowed (e : Engine) (names processes : Nat) (k : Track) : Prop
  /-- The worker has the job in both schedules. -/
  | inHand {d time : Nat} {n : Floor Unit} {l : Track} (post : k.lane.post ≠ .away)
      (solo : n.Solo e names processes k.lane.flight.job) (track : n.track? 0 = some l)
      (trails : k.Trails d time l)
  /-- The job has its result in both schedules. -/
  | settled {x : JobResult} (post : k.lane.post = .away)
      (results : ∀ r, .completed r ∈ k.lane.notes → r.undated = x)
      (finds : e.Finds names processes k.lane.flight.job x)
  /-- The schedule is stopped. -/
  | spoiled (spoiled : k.lane.Spoiled)

namespace Track

variable {e : Engine} {names processes first f d time : Nat} {k k' l : Track} {n : Floor Unit}
  {i : JobInstance}

/-- A job that gets its result beside others gets it alone. -/
theorem Alike.finds (hlimits : e.Timely) (hi : i.isTimely = true) (h : k.Alike d l)
    (hpost : k.lane.post ≠ .away) (hpending : ∀ r, .completed r ∉ k.lane.notes)
    (hsolo : n.Solo e names processes i) (htrack : n.track? 0 = some l) {rest : List Item}
    (hready : k.lane.ready = .worker :: rest)
    (halike : ((k.pop rest).turn e .worker).Alike d ((l.pop rest).turn e .worker))
    {status : JobStatus} (hfree : (k.lane.tend e).2 = .free status) :
    ∃ x, (∀ r, .completed r ∈ ((k.pop rest).turn e .worker).lane.notes → r.undated = x) ∧
      e.Finds names processes i x := by
  -- There is one result: the one that the worker has given in this turn.
  obtain ⟨r₀, hverdicts⟩ : ∃ r₀,
      verdictsAmong ((k.pop rest).turn e .worker).lane.notes = [JobResult.undated r₀] := by
    have htended := k.lane.tended_tend e hpost
    rw [hfree] at htended
    cases htended with
    | @concludes status ms uncut reason watch logs notes orders =>
      refine ⟨e.resultAt k.lane.flight.job (some k.lane.flight.takenAt) k.lane.around.now status
        k.lane.flight.steps, ?_⟩
      have hnotes : ((k.pop rest).lane.workerTurn e).notes =
          k.lane.notes ++ (ms ++ e.verdictNotes k.lane.flight k.lane.around.now status) := by
        rw [← notes]
        exact Lane.notes_workerTurn e (v := (k.pop rest).lane) hpost
      show verdictsAmong ((k.pop rest).lane.workerTurn e).notes = _
      rw [hnotes, verdictsAmong_append, verdictsAmong_append, verdictsAmong_eq_nil hpending,
        verdictsAmong_eq_nil (Lane.not_mem_logs logs)]
      rfl
  have hone : ∀ r : JobResult, r.undated ∈
      verdictsAmong ((k.pop rest).turn e .worker).lane.notes →
      r.undated = r₀.undated := by
    intro r hr
    rw [hverdicts] at hr
    exact List.mem_singleton.1 hr
  refine ⟨r₀.undated, fun r hr => hone r (mem_verdictsAmong hr), ?_⟩
  obtain ⟨m, turns, v, hl, hsched, hend, hv, hresults⟩ :=
    hsolo.finishes hlimits hi htrack (h.lane.post ▸ hpost) (h.lane.ready.trans hready)
      ((h.lane.tend e).2.trans hfree)
  refine ⟨m, turns, v, hl, hsched, hend, hv, fun r hr => hone r ?_⟩
  rw [← halike.lane.verdicts]
  exact mem_verdictsAmong (hresults r hr)

/-- The worker leaves the job: it has its result, or the schedule is stopped. -/
theorem Alike.leaves (hlimits : e.Timely) (hi : i.isTimely = true) (h : k.Alike d l)
    (hjob : k.lane.flight.job = i) (hpost : k.lane.post ≠ .away)
    (hpending : ∀ r, .completed r ∉ k.lane.notes) (hsolo : n.Solo e names processes i)
    (htrack : n.track? 0 = some l) {rest : List Item} (ready : k.lane.ready = .worker :: rest)
    (halike : ((k.pop rest).turn e .worker).Alike d ((l.pop rest).turn e .worker))
    (hjob' : ((k.pop rest).turn e .worker).lane.flight.job = k.lane.flight.job)
    (hleft : ((k.pop rest).turn e .worker).lane.post = .away) :
    ((k.pop rest).turn e .worker).Shadowed e names processes := by
  have htended := k.lane.tended_tend e hpost
  generalize hsq : (k.lane.tend e).2 = sq at htended
  -- With a result, the lone run has the same one; without one, the job was spoiled.
  cases htended with
  | preempts cause reason desk =>
    exact absurd hleft ((Lane.stays_iff e (v := (k.pop rest).lane) hpost).2 hsq)
  | concludes uncut reason watch logs notes orders =>
    obtain ⟨x, hresults, hfinds⟩ :=
      h.finds hlimits hi hpost hpending hsolo htrack ready halike hsq
    refine .settled hleft hresults ?_
    rw [hjob', hjob]
    exact hfinds
  | stops cause watch notes orders =>
    refine .spoiled ⟨fun r hr => ?_, .inl hleft⟩
    have hr' : .completed r ∈ ((k.pop rest).lane.workerTurn e).notes := hr
    rw [Lane.notes_workerTurn e (v := (k.pop rest).lane) hpost] at hr'
    exact (List.mem_append.1 hr').elim (hpending r) (Lane.not_mem_logs notes r)

/-- A turn in the lane of the job is one in the lane of the job alone. -/
theorem Shadowed.own (he : e.Steady) (hlimits : e.Timely) (hpost : k.lane.post ≠ .away)
    (hpending : ∀ r, .completed r ∉ k.lane.notes) (hi : k.lane.flight.job.isTimely = true)
    (hsolo : n.Solo e names processes k.lane.flight.job) (htrack : n.track? 0 = some l)
    (trails : k.Trails d time l) {item : Item} {rest : List Item} (ready : k.lane.ready =
        item :: rest)
    (hp' : k.lane.Passes e ((k.pop rest).turn e item).lane)
    (hjob : ((k.pop rest).turn e item).lane.flight.job = k.lane.flight.job)
    (hrun : ((k.pop rest).turn e item).lane.around.canceled = false) :
    ((k.pop rest).turn e item).Shadowed e names processes := by
  have hpost' : l.lane.post ≠ .away := by
    rw [show l.lane.post = k.lane.post from trails.alike.lane.post]
    exact hpost
  have hready : l.lane.ready = item :: rest := trails.alike.lane.ready.trans ready
  obtain ⟨-, halike⟩ := trails.alike_of_busy fun hstill => by
    have hnone := hstill.1
    rw [hready] at hnone
    cases hnone
  have hturn := (halike.pop rest).turn he item hrun
  by_cases hleft : ((k.pop rest).turn e item).lane.post = .away
  · -- Only in its own turn does a worker leave.
    obtain ⟨-, rest', hworker, -⟩ := (hp'.quiet_or_turn).resolve_left fun hquiet =>
      hpost (hquiet.1.symm.trans hleft)
    rw [ready] at hworker
    obtain ⟨rfl, -⟩ := List.cons.inj hworker
    exact halike.leaves hlimits hi rfl hpost hpending hsolo htrack ready hturn hjob hleft
  · have hsame : ((l.pop rest).turn e item).lane.post ≠ .away := hturn.lane.post ▸ hleft
    obtain ⟨n', solo', track'⟩ := hsolo.own hlimits hi htrack hpost' hready hsame
    exact .inHand hleft (hjob ▸ solo') track' hturn.trails

/-- **A schedule of the job alone keeps up with every move.** -/
theorem Shadowed.passes (he : e.Steady) (hlimits : e.Timely) (h : k.Shadowed e names processes)
    (hfine : k.lane.Fine e first f) (hf : first ≤ f) (hp : k.Passes e k')
    (hp' : k.lane.Passes e k'.lane) (hi : k.lane.flight.job.isTimely = true)
    (hrun : k'.lane.around.canceled = false) : k'.Shadowed e names processes := by
  have hidle : k.lane.post = .away → k.lane.call = .idle := (hfine.sound_new hf).idle
  have hjob : k'.lane.flight.job = k.lane.flight.job := (hp'.same hidle).1
  cases h with
  | settled post results finds =>
    obtain ⟨hpost, hkept⟩ := hp'.results_of_away post
    exact .settled hpost (fun r hr => results r (hkept r hr)) (hjob ▸ finds)
  | spoiled spoiled => exact .spoiled (spoiled.passes hidle hp')
  | @inHand d time n l post solo track trails =>
    have hpending := (hfine.judged hf).pending post
    have hpost : l.lane.post ≠ .away := by
      rw [show l.lane.post = k.lane.post from trails.alike.lane.post]
      exact post
    cases hp with
    | own ready =>
      exact Shadowed.own he hlimits post hpending hi solo track trails ready hp' hjob hrun
    | @other s now canceled =>
      have hrun' : s.canceled = false := by
        rw [← Lane.around_moveTo s k.lane]
        exact hrun
      refine .inHand ?_ (hjob ▸ solo) track (trails.other now hrun')
      show (k.lane.moveTo s).post ≠ .away
      rw [Lane.moveTo_eq]
      exact post
    -- The only move of others that ends the likeness, and from then on there is no result.
    | cut =>
      refine .spoiled ⟨fun r hr => ?_, .inr (.inl ?_)⟩
      · have hr' : .completed r ∈ k.lane.cut.seen.map Prod.snd := hr
        rw [Lane.seen_cut] at hr'
        exact hpending r hr'
      · show k.lane.cut.call = .cut
        unfold Lane.cut
        rw [if_neg post]
        split <;> rfl
    | @round time' ready now later due =>
      have hsorted := Floor.sorted_of_inOrder track (solo.inTime hlimits hi).timers
      -- The lone run either lags behind, and waits, or goes on to the same time.
      rcases trails.round hsorted ready now later due with ⟨t, ht⟩ | ⟨hready, hnext, ht⟩
      · exact .inHand post solo track ht
      · obtain ⟨n', solo', track'⟩ := solo.round hlimits hi track hpost hready hnext
        exact .inHand post solo' track' ht

/-- A job that was just taken, beside one that was just taken alone. -/
theorem alike_launched (i : JobInstance) (w names processes : Nat) {s : Surroundings}
    (hrun : s.canceled = false) :
    (launched i w s).Alike s.now (launched i 0 ⟨0, false, names, processes⟩) := by
  have hnow : s.now = 0 + s.now := (Nat.zero_add _).symm
  refine ⟨⟨?_, rfl, rfl, ⟨hnow, hrun, rfl⟩, rfl, rfl, rfl⟩, ?_⟩
  · exact ⟨rfl, hnow, rfl, rfl, .fresh, rfl, .none, rfl, rfl⟩
  · show ((Span.ofSeconds i.timeoutSeconds).due s.now).toList.map _ = _
    rw [hnow, Span.due_add]
    show _ = (((Span.ofSeconds i.timeoutSeconds).due 0).toList.map _).map _
    cases (Span.ofSeconds i.timeoutSeconds).due 0 with
    | none => rfl
    | some due => simp [Chime.shift]

theorem shadowed_launched (hfault : e.concurrencyFault? = none) (i : JobInstance)
    (w names processes : Nat) {s : Surroundings} (hrun : s.canceled = false) :
    (launched i w s).Shadowed e names processes :=
  .inHand (fun hc => by cases hc) (Floor.solo_taken hfault i names processes)
    (Floor.track?_taken i names processes) (alike_launched i w names processes hrun).trails

end Track

/-- **A schedule of each job alone keeps up with the schedule.** -/
theorem Floor.Open.shadowed_leads {e : Engine} {fl m : Floor σ} {jobs : List JobInstance}
    (ho : fl.Open e) (he : e.Steady) (hfault : e.concurrencyFault? = none)
    (hp : e.Punctual jobs fl)
    (names processes : Nat) (hl : e.Leads (e.staff jobs fl) m) :
    m.Tracks fun f k => fl.flights.length ≤ f → k.lane.around.canceled = false →
      k.lane.flight.job.isTimely = true → k.Shadowed e names processes := by
  have hstaff := ho.underway_staff jobs
  have hall : m.Tracks fun f k => k.lane.Fine e fl.flights.length f ∧
      (fl.flights.length ≤ f → k.lane.around.canceled = false →
        k.lane.flight.job.isTimely = true → k.Shadowed e names processes) := by
    -- The moves of a track need that its lane is fine, so both are shown together.
    refine Tracks.leads hp.limits ?_ ?_ hstaff.orderly hp.inTime hl ?_
    · rintro f k k' ⟨hfine, h⟩ hpass hpass'
      refine ⟨hfine.passes hpass', fun hf hrun hi => ?_⟩
      have hidle : k.lane.post = .away → k.lane.call = .idle := (hfine.sound_new hf).idle
      rw [(hpass'.same hidle).1] at hi
      have hrun' : k.lane.around.canceled = false := by
        by_contra hc
        rw [hpass'.canceled hidle (by simpa using hc)] at hrun
        cases hrun
      exact (h hf hrun' hi).passes he hp.limits hfine hf hpass hpass' hi hrun
    · intro f i w s hf hrun
      exact ⟨Lane.fine_launched e hf i w s,
        fun _ _ _ => Track.shadowed_launched hfault i w names processes hrun⟩
    · intro f k hk
      obtain ⟨hv, -⟩ := lane_of_track? hk
      have hlt : f < (e.staff jobs fl).flights.length := length_of_lane hv
      exact ⟨hstaff.lanes f k.lane hv, fun hf => absurd hlt (Nat.not_lt.2 hf)⟩
  exact fun f k hk => (hall f k hk).2

/-! ## Results -/

namespace Engine

variable {e : Engine} {fl fl' : Floor σ} {jobs : List JobInstance} {s : ScheduleReport}
  {results : List JobResult} {names processes : Nat} {i : JobInstance}

/-- In a run that nobody cancels, each result was given in the flight of its job. -/
theorem exists_flown (ho : e.Opens fl) (hids : (jobs.map JobInstance.id).Nodup)
    (hrun : e.reportSchedule jobs fl = some (s, fl')) (hres : s.results = some results)
    (hc : fl'.around.canceled = false) {j : Nat} (hi : jobs[j]? = some i) :
    ∃ m v r, e.Leads (e.staff jobs fl) m ∧ m.around.canceled = false ∧
      m.lane? (fl.flights.length + j) = some v ∧ v.flight.job = i ∧ results[j]? = some r ∧
      .completed r ∈ v.notes := by
  have hsettles := settles_results ho hids hrun hres
  obtain ⟨m, hl, rfl, -, haround, -⟩ := ho.isOpen.exists_end hrun
  have hunder := (ho.isOpen.underway_staff jobs).leads hl
  obtain ⟨taken, hdealt⟩ := ho.isOpen.dealt_leads hl
  rw [haround] at hc
  have hlt := (List.getElem?_eq_some_iff.1 hi).1
  have hlt' : j < results.length := hsettles.length_eq ▸ hlt
  have hsettled := (List.forall₂_iff_get.1 hsettles).2 j hlt hlt'
  rw [List.get_eq_getElem, List.get_eq_getElem, (List.getElem?_eq_some_iff.1 hi).2] at hsettled
  have hid := hsettled.jobId
  cases hsettled with
  | @turnedAway time seen result =>
    -- Jobs are turned away in canceled runs only.
    have hcanceled := (hdealt.refused _ (List.mem_reverse.1 seen) rfl _ rfl).1
    rw [hc] at hcanceled
    cases hcanceled
  | @flown f time x before after id job seen warrant =>
    have hmem : ⟨time, some f, .completed results[j]⟩ ∈ m.seen := by
      refine Floor.mem_seenOf.1 ?_
      have hseen : seenOf f m.seen = before ++ (time, .completed results[j]) :: after := by
        rw [← seen]
        simp [ScheduleReport.seenOf, Floor.reportOf, Floor.sightings]
      rw [hseen]
      exact List.mem_append_right _ List.mem_cons_self
    obtain ⟨k, v, rfl, -, hv, hcompleted, hjob, hjobId⟩ := hdealt.of_flown hunder hmem
    -- No two jobs share an id, so the flight is that of the job in question.
    obtain rfl := index_unique hids hi hjob (hjobId.symm.trans hid)
    rw [hi] at hjob
    exact ⟨m, _, results[k], hl, hc, hv, (Option.some.inj hjob).symm,
        List.getElem?_eq_getElem hlt',
      List.mem_map.2 ⟨_, hcompleted, rfl⟩⟩

/-- How many workers an engine may have matters only when they are hired. -/
theorem takeJobs_slots (e : Engine) (slots : Int) (w : Nat) (jobs : List JobInstance)
    (fl : Floor σ) :
    takeJobs { e with maxConcurrency := slots } w jobs fl = e.takeJobs w jobs fl := by
  induction jobs generalizing fl with
  | nil => rfl
  | cons i rest ih =>
    have hrest : ∀ told : Floor σ × Bool,
        (if told.2 then takeJobs { e with maxConcurrency := slots } w rest told.1 else told.1) =
          if told.2 then e.takeJobs w rest told.1 else told.1 := fun told => by rw [ih]
    unfold takeJobs
    split
    · exact hrest _
    · rfl

theorem resume_slots (e : Engine) (slots : Int) (w : Nat) (told : Floor σ × Bool) :
    resume { e with maxConcurrency := slots } w told = e.resume w told := by
  rw [resume, resume, takeJobs_slots]

theorem workerTurn_slots (e : Engine) (slots : Int) (w : Nat) (fl : Floor σ) :
    workerTurn { e with maxConcurrency := slots } w fl = e.workerTurn w fl := by
  -- The number of slots is not read in any turn of a worker.
  have hcarry : ∀ (d : Desk) (fl : Floor σ) sq,
      carryOn { e with maxConcurrency := slots } w d fl sq = e.carryOn w d fl sq := by
    intro d fl sq
    cases sq with
    | stay => rfl
    | stop => rfl
    | free status => exact resume_slots e slots w _
  have hwork : ∀ (f : Nat) (turn : Desk → Desk × Sequel) (fl : Floor σ),
      workOn { e with maxConcurrency := slots } w f turn fl = e.workOn w f turn fl := by
    intro f turn fl
    unfold workOn
    cases fl.desk? f with
    | none => rfl
    | some d => exact hcarry _ _ _
  unfold workerTurn
  cases fl.workers[w]? with
  | none => rfl
  | some worker =>
    dsimp only
    cases worker.duty with
    | fresh =>
      dsimp only
      rw [takeJobs_slots]
    | watching f => exact hwork f _ _
    | preempting f cause => exact hwork f _ _
    | telling jobId due next => exact resume_slots e slots w _
    | done stopped => rfl

theorem step_slots (e : Engine) (slots : Int) (t : Turn) (fl : Floor σ) :
    step { e with maxConcurrency := slots } t fl = e.step t fl := by
  cases t with
  | worker w => exact workerTurn_slots e slots w fl
  | _ => rfl

theorem leads_slots {m : Floor σ} (h : e.Leads fl m) (slots : Int) :
    Leads { e with maxConcurrency := slots } fl m := by
  induction h with
  | refl => exact .refl
  | tail hl hm ih =>
    refine ih.tail ?_
    cases hm with
    | turn ready other =>
      rw [← step_slots e slots]
      exact .turn ready other
    | round ready next => exact .round ready next

/-- One worker is hired for one job. -/
theorem staff_slots (hfault : e.concurrencyFault? = none) (i : JobInstance) (fl : Floor σ) :
    staff { e with maxConcurrency := 1 } [i] fl = e.staff [i] fl := by
  have hpos := crew_pos hfault (List.cons_ne_nil i [])
  have hcount : min e.maxConcurrency.toNat [i].length = 1 := by
    rw [List.length_singleton] at hpos ⊢
    omega
  unfold staff
  dsimp only
  rw [hcount]
  rfl

/-- A schedule of one job with one worker, which finishes with this verdict. -/
theorem Finds.report {x : JobResult} (hfault : e.concurrencyFault? = none)
    (h : e.Finds names processes i x) :
    ∃ s fl r, reportSchedule { e with maxConcurrency := 1 } [i] (.start names processes ()) =
      some (s, fl) ∧ s.results = some [r] ∧ r.undated = x := by
  obtain ⟨m, rest, v, hl, hready, hend, hv, hverdict⟩ := h
  have hl' := leads_slots hl 1
  rw [← staff_slots hfault] at hl'
  have hrun : reportSchedule { e with maxConcurrency := 1 } [i] (.start names processes ()) =
      some (m.reportOf [i], { m with ready := rest }.forget) := by
    unfold reportSchedule schedule
    rw [advance_of_leads _ hl', advance_scheduler _ hready]
    rfl
  have hres : (m.reportOf [i]).results = some ((m.reportOf [i]).resultFor i.id).toList := by
    unfold ScheduleReport.results
    rw [show (m.reportOf [i]).ending = .finished from hend]
    show some ([i].filterMap fun i => (m.reportOf [i]).resultFor i.id) = _
    cases hfor : (m.reportOf [i]).resultFor i.id <;> simp [hfor]
  have hids : ([i].map JobInstance.id).Nodup := List.nodup_singleton _
  have hsettles := settles_results (.start names processes ()) hids hrun hres
  cases hfor : (m.reportOf [i]).resultFor i.id with
  | none =>
    rw [hfor] at hsettles
    cases hsettles
  | some r =>
    rw [hfor] at hres
    refine ⟨_, _, r, hrun, hres, hverdict r ?_⟩
    -- The result was given in the only flight.
    have ho : (Floor.start names processes ()).Open e := (Opens.start names processes ()).isOpen
    obtain ⟨taken, hdealt⟩ := ho.dealt_leads hl
    have hunder := (ho.underway_staff [i]).leads hl
    rcases hdealt.resultFor hunder hids (k := 0) rfl hfor with ⟨-, t, hmem⟩ | ⟨hnone, -⟩
    · exact List.mem_map.2 ⟨_, (Floor.mem_seen_lane hv).2 (List.mem_reverse.1 hmem), rfl⟩
    · have hlt := Floor.length_of_lane hv
      rw [hdealt.length] at hlt
      exact absurd hlt (Nat.not_lt.2 (Nat.add_le_add_left hnone 0))

/-- **Each result of a schedule is that of a schedule of the job alone, with one worker**, but
for its times, as long as provisioner and executor do the same at any time and nobody cancels the
run. It does not matter what becomes of the other jobs, how many workers there are, and what is
done on the floor before. No limit is undefined: a timer without a defined time is due neither
before nor after any other, and then it matters which of them is first to go off. -/
theorem isolated_results (ho : e.Opens fl) (he : e.Steady) (hfault : e.concurrencyFault? = none)
    (hp : e.Punctual jobs fl) (hids : (jobs.map JobInstance.id).Nodup)
    (hrun : e.reportSchedule jobs fl = some (s, fl')) (hres : s.results = some results)
    (hc : fl'.around.canceled = false) (names processes : Nat) :
    results.length = jobs.length ∧
      ∀ (j : Nat) (i : JobInstance) (r : JobResult), jobs[j]? = some i → results[j]? = some r →
        ∃ s' fl'' r', reportSchedule { e with maxConcurrency := 1 } [i]
        (.start names processes ()) =
            some (s', fl'') ∧
          s'.results = some [r'] ∧ r.undated = r'.undated := by
  refine ⟨(settles_results ho hids hrun hres).length_eq.symm, fun j i r hi hr => ?_⟩
  obtain ⟨m, v, r', hl, hrunning, hv, rfl, hr', hcompleted⟩ :=
    exists_flown ho hids hrun hres hc hi
  obtain rfl := Option.some.inj (hr.symm.trans hr')
  have hshadowed := ho.isOpen.shadowed_leads he hfault hp names processes hl _ _
    (Floor.track?_of_lane hv) (Nat.le_add_right _ _)
    (by rw [← Floor.around_of_lane hv] at hrunning; exact hrunning)
    (hp.jobs _ (List.mem_of_getElem? hi))
  -- Since the job has a result, its track is past the point where it could be in hand or
  -- spoiled.
  cases hshadowed with
  | inHand post solo track trails =>
    have hfine := ((ho.isOpen.underway_staff jobs).leads hl).lanes _ v hv
    exact absurd hcompleted ((hfine.judged (Nat.le_add_right _ _)).pending post r)
  | spoiled spoiled => exact absurd hcompleted (spoiled.pending r)
  | settled post results finds =>
    obtain ⟨s', fl'', r', hrun', hres', hverdict⟩ := finds.report hfault
    exact ⟨s', fl'', r', hrun', hres', (results r hcompleted).trans hverdict.symm⟩

/-! ### Rehearsals -/

theorem alike_perform {d : Nat} {onCancel : Activity Deed Unit} (h : onCancel.Alike d onCancel)
    (env : Bindings) (commands : List ScriptCommand) :
    (perform onCancel env commands).Alike d (perform onCancel env commands) := by
  induction commands with
  | nil => exact .finish _
  | cons c rest ih =>
    cases c with
    | echo text => exact .note _ ih
    | showVariable name => exact .note _ ih
    | repeated count text => exact .note _ ih
    | sleep ms =>
      refine .wait _ fun cut => ?_
      cases cut with
      | true => exact .finish _
      | false => exact ih
    | exit code => exact .finish _
    | fail code reason => exact .finish _
    | crash reason => exact .finish _
    | cancel => exact h.andThen fun _ => ih
    | stubborn ms =>
      refine .wait _ fun cut => ?_
      cases cut with
      | true => exact .wait _ fun _ => .finish _
      | false => exact ih
    | swallow =>
      refine .wait _ fun cut => ?_
      cases cut with
      | true => exact .note _ ih
      | false => exact ih
    | out bytes => exact ih
    | signal name => exact ih
    | idle => exact ih

/-- **Units that follow a plan and scripts that are performed do the same at any time.** -/
theorem steady_rehearsal (plan : ProvisionPlan) (workers : Int) :
    (rehearsal plan workers).Steady := by
  have hacquire : ∀ d i, (plan.acquireNow i).Alike d (plan.acquireNow i) := by
    intro d i
    unfold ProvisionPlan.acquireNow
    dsimp only
    split <;> exact .finish _
  have hrelease : ∀ d u, (plan.releaseNow u).Alike d (plan.releaseNow u) := by
    intro d u
    unfold ProvisionPlan.releaseNow
    split <;> exact .finish _
  constructor
  · intro d i
    show (plan.acquire i).Alike d (plan.acquire i)
    unfold ProvisionPlan.acquire
    split
    · exact hacquire d i
    · refine .wait _ fun cut => ?_
      split
      · exact .finish _
      · exact hacquire d i
  · intro d u
    show (plan.release u).Alike d (plan.release u)
    unfold ProvisionPlan.release
    split
    · exact hrelease d u
    · refine Activity.Alike.bind (.wait _ fun cut => ?_) fun _ => hrelease d u
      cases cut with
      | true => exact .finish _
      | false => exact .finish _
  · intro d u n script env
    exact alike_perform .cancel env _

/-- An engine whose units are spent after two scripts: each that comes later fails in them. -/
def wearing (plan : ProvisionPlan) (workers : Int) : Engine :=
  { rehearsal plan workers with
    executor := fun u ran script env =>
      if ran < 2 then rehearse (.cancel (.done ())) u ran script env else .done 1 }

/-- **A unit may wear out.** -/
theorem steady_wearing (plan : ProvisionPlan) (workers : Int) :
    (wearing plan workers).Steady := by
  have h := steady_rehearsal plan workers
  refine ⟨h.acquire, h.release, fun d u ran script env => ?_⟩
  show Activity.Alike d (if ran < 2 then _ else _) (if ran < 2 then _ else _)
  split
  · exact h.execute d u ran script env
  · exact .finish _

/-- A plan by which units with the image `bad` cannot be had, and the release of the unit of job
`c` takes too long. -/
def crowdedPlan : ProvisionPlan :=
  { ProvisionPlan.smooth with
    fail := [("bad", "no such image")]
    releaseMs := [("c", 7000)] }

/-- A job that is abandoned, jobs that get no unit, break, fail and wear out their unit, and one
that waits for a worker. -/
def crowdedJobs : List JobInstance :=
  [.rehearsal "a" "" (.ofInt 1) ["sleep 500", "stubborn 9000", "exit 0"],
   .rehearsal "b" "bad" (.ofInt 60) ["exit 0"],
   .rehearsal "c" "" (.ofInt 60) ["crash boom", "exit 0"],
   .rehearsal "d" "" (.ofInt 60) ["exit 0", "exit 0", "exit 0"],
   .rehearsal "e" "" (.ofInt 60) ["sleep 250", "exit 0"]]

/-- Five jobs and two workers, beside a slow receiver that fails at each result. -/
theorem isolated_results_crowded :
    ∃ s fl' results,
      (wearing crowdedPlan 2).reportSchedule crowdedJobs (.telling slowReceiver) =
      some (s, fl') ∧
        s.results = some results ∧
        results.map JobResult.status = [.timedOut, .failed, .failed, .failed, .success] ∧
        ∀ (j : Nat) (i : JobInstance) (r : JobResult), crowdedJobs[j]? = some i →
          results[j]? = some r →
          ∃ s' fl'' r', (wearing crowdedPlan 1).reportSchedule [i] (.start 0 0 ()) =
          some (s', fl'') ∧
            s'.results = some [r'] ∧ r.undated = r'.undated := by
  have hrun : ((wearing crowdedPlan 2).reportIn 150 crowdedJobs (.telling slowReceiver)).map
      (fun r =>
      (r.1.results.map (List.map JobResult.status), r.2.around.canceled)) =
      some (some [.timedOut, .failed, .failed, .failed, .success], false) := by
    decide +kernel
  obtain ⟨⟨s, fl'⟩, hreport, hfound⟩ := Option.map_eq_some_iff.1 hrun
  obtain ⟨hstatus, hc⟩ := Prod.mk.inj hfound
  obtain ⟨results, hres, hstatuses⟩ := Option.map_eq_some_iff.1 hstatus
  have hschedule := reportSchedule_of_reportIn rfl hreport
  have hpunctual : (wearing crowdedPlan 2).Punctual crowdedJobs (.telling slowReceiver) :=
    ⟨⟨by decide +kernel, by decide +kernel⟩, by decide +kernel, Timer.inOrder_nil⟩
  obtain ⟨-, hisolated⟩ := isolated_results (opens_telling _ slowReceiver)
      (steady_wearing crowdedPlan 2)
    rfl hpunctual (by decide) hschedule hres hc 0 0
  exact ⟨s, fl', results, hschedule, hres, hstatuses, hisolated⟩

/-- An engine with a grace period of one second. -/
def brisk : Engine := { rehearsal .smooth 1 with graceSeconds := .ofInt 1 }

theorem steady_brisk : brisk.Steady :=
  have h := steady_rehearsal .smooth 1
  ⟨h.acquire, h.release, h.execute⟩

/-- A job that is abandoned after three seconds, with seven of its own still to go, and one
without a defined limit. -/
def unboundedJobs : List JobInstance :=
  [.rehearsal "a" "" (.ofInt 1) ["stubborn 9000"], .rehearsal "b" "" .nan ["exit 0"]]

/-- **A job whose limit is undefined sees the others**: its timer goes off at once where it is
the only one, and waits behind what an abandoned job has left. -/
theorem unlike_alone_undefined :
    brisk.Steady ∧ (unboundedJobs.map JobInstance.id).Nodup ∧
      ∃ s fl' r₁ r s' fl'' r',
        brisk.reportSchedule unboundedJobs (.start 0 0 ()) = some (s, fl') ∧
          s.results = some [r₁, r] ∧ fl'.around.canceled = false ∧
          brisk.reportSchedule (unboundedJobs.drop 1) (.start 0 0 ()) = some (s', fl'') ∧
          s'.results = some [r'] ∧ r.undated ≠ r'.undated := by
  have hrun : (brisk.reportIn 80 unboundedJobs (.start 0 0 ())).map (fun r =>
      (r.1.results.map (List.map JobResult.status), r.2.around.canceled)) =
      some (some [.timedOut, .success], false) := by
    decide +kernel
  have halone : (brisk.reportIn 80 (unboundedJobs.drop 1) (.start 0 0 ())).map (fun r =>
      r.1.results.map (List.map JobResult.status)) = some (some [.timedOut]) := by
    decide +kernel
  obtain ⟨⟨s, fl'⟩, hreport, hfound⟩ := Option.map_eq_some_iff.1 hrun
  obtain ⟨hstatus, hc⟩ := Prod.mk.inj hfound
  obtain ⟨results, hres, hstatuses⟩ := Option.map_eq_some_iff.1 hstatus
  obtain ⟨⟨s', fl''⟩, hreport', hstatus'⟩ := Option.map_eq_some_iff.1 halone
  obtain ⟨results', hres', hstatuses'⟩ := Option.map_eq_some_iff.1 hstatus'
  obtain ⟨r₁, rest, rfl, -, hrest⟩ := List.map_eq_cons_iff.1 hstatuses
  obtain ⟨r, others, rfl, hr, hnil⟩ := List.map_eq_cons_iff.1 hrest
  obtain ⟨r', others', rfl, hr', hnil'⟩ := List.map_eq_cons_iff.1 hstatuses'
  obtain rfl := List.map_eq_nil_iff.1 hnil
  obtain rfl := List.map_eq_nil_iff.1 hnil'
  refine ⟨steady_brisk, by decide, s, fl', r₁, r, s', fl'', r', reportSchedule_of_reportIn rfl
      hreport,
    hres, hc, reportSchedule_of_reportIn rfl hreport', hres', fun hsame => ?_⟩
  have hsame' : r.undated.status = r'.undated.status := congrArg JobResult.status hsame
  change r.status = r'.status at hsame'
  rw [hr, hr'] at hsame'
  cases hsame'

end Engine

end Conveyor
