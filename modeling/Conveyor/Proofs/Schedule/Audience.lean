import Conveyor.Proofs.Schedule.Ledger

/-!
# Results and their receiver

A worker that leaves a job tells the receiver of its result, and is at no other job before the
receiver is done with it.

- `Answered`: a flight got its result, and since then the receiver was done with what it was
  told.
- `Floor.Attended`: how far the result of a flight has come that its worker left.
- `Engine.Seeks.attended`: it has come so far when the worker goes on.
- `Floor.Attended.moves`: it stays so.
- `Floor.attended_of_left`: **a worker that leaves a flight tells the receiver.**
-/

namespace Conveyor

variable {σ : Type}

/-- A flight got its result, and since then the receiver was done with what a worker told it of
the job. -/
def Answered (f w : Nat) (jobId : Text) (ss : List Sighting) : Prop :=
  ∃ past t r since, ss = past ++ ⟨t, some f, .completed r⟩ :: since ∧
    ∃ t', ⟨t', none, .answered w jobId⟩ ∈ since

section

variable {f w : Nat} {jobId : Text} {ss ts : List Sighting}

theorem Answered.append (h : Answered f w jobId ss) (ts : List Sighting) :
    Answered f w jobId (ss ++ ts) := by
  obtain ⟨past, t, r, since, rfl, t', ht⟩ := h
  exact ⟨past, t, r, since ++ ts, by simp, t', List.mem_append_left _ ht⟩

/-- What was answered before something else was seen. -/
theorem Answered.init {x : Sighting} (h : Answered f w jobId (ss ++ [x]))
    (hx : ∀ t, x ≠ ⟨t, none, .answered w jobId⟩) : Answered f w jobId ss := by
  obtain ⟨past, t, r, since, hss, t', ht⟩ := h
  -- The answer is not the last that was seen, so that the last comes after it.
  obtain rfl | ⟨init, y, rfl⟩ := since.eq_nil_or_concat
  · cases ht
  · rw [List.concat_eq_append] at hss ht
    rw [← List.cons_append, ← List.append_assoc] at hss
    obtain ⟨rfl, hy⟩ := List.append_inj' hss rfl
    obtain rfl := List.singleton_inj.1 hy
    refine ⟨past, t, r, init, rfl, t', (List.mem_append.1 ht).resolve_right fun hlast => ?_⟩
    exact hx t' (List.mem_singleton.1 hlast).symm

/-- A result that was seen is answered now. -/
theorem answered_of_mem {t : Nat} {r : JobResult} (hr : ⟨t, some f, .completed r⟩ ∈ ss)
    {t' : Nat}
    (ht : ⟨t', none, .answered w jobId⟩ ∈ ts) : Answered f w jobId (ss ++ ts) := by
  obtain ⟨past, since, rfl⟩ := List.append_of_mem hr
  exact ⟨past, t, r, since ++ ts, by simp, t', List.mem_append_right _ ht⟩

end

/-- How far the result of a flight has come that its worker left: unless a worker was stopped,
the receiver has answered, or the worker still waits for it. -/
inductive Floor.Attended (fl : Floor σ) (f w : Nat) (jobId : Text) : Prop
  | stopped (stopped : fl.Stopped)
  | answered (answered : Answered f w jobId fl.sightings)
  | telling {worker : Worker σ} {due : Nat} {next : Bool → Reception σ} {t : Nat} {r : JobResult}
      (get : fl.workers[w]? = some worker) (duty : worker.duty = .telling jobId due next)
      (result : ⟨t, some f, .completed r⟩ ∈ fl.sightings)

variable {e : Engine} {fl fl' : Floor σ} {f w : Nat} {jobId : Text}

/-- What was seen up to here, and what is seen while a worker passes some jobs. -/
theorem Floor.sightings_cleared (rest : List JobInstance) (m : σ) (ns : List Note)
    (fl : Floor σ) :
    (fl.cleared rest m ns).sightings = fl.sightings ++ ns.map fun n => ⟨fl.now, none, n⟩ := by
  simp [Floor.sightings, Floor.cleared, Floor.see]

/-- **A worker that goes on with a result** has told it. -/
theorem Engine.Seeks.attended {quick : Bool} (h : e.Seeks w (some jobId) fl quick fl')
    {worker : Worker σ} (get : fl.workers[w]? = some worker) {t : Nat} {r : JobResult}
    (hr : ⟨t, some f, .completed r⟩ ∈ fl.sightings) : fl'.Attended f w jobId := by
  have hans : ∀ (rest : List JobInstance) (m : σ) (ns : List Note), .answered w jobId ∈ ns →
      Answered f w jobId (fl.cleared rest m ns).sightings := by
    intro rest m ns hns
    rw [Floor.sightings_cleared]
    exact answered_of_mem hr (List.mem_map_of_mem hns)
  cases h with
  | @leave ns m passes answered => exact .answered (hans [] m ns (answered jobId rfl))
  | @take i rest ns m passes running answered =>
    refine .answered ?_
    have hlaunched : (launch w i (fl.cleared rest m ns)).sightings =
        (fl.cleared rest m ns).sightings ++
          [⟨fl.now, some fl.flights.length, .log .debug (pickUpMessage w i)⟩] := by
      rw [Floor.launch_eq]
      simp [Floor.sightings, Floor.cleared, Floor.see, Floor.now]
    rw [hlaunched]
    exact (hans rest m ns (answered jobId rfl)).append _
  | stop passes => exact .stopped (Floor.stopped_endWorker get)
  | @wait gone rest ns m jobId' span next passes asked =>
    obtain ⟨ws, ts, timers, hattend, ⟨k, rfl, hk⟩, -⟩ :=
      attend_eq w jobId' span next (fl.cleared rest m ns)
    rw [hattend]
    rcases asked jobId rfl with hns | rfl
    · exact .answered (hans rest m ns hns)
    · have hget : (fl.workers.modify w k)[w]? = some (k worker) := by
        rw [List.getElem?_modify_eq, get]
        rfl
      have hmem : ⟨t, some f, .completed r⟩ ∈ (fl.cleared rest m ns).sightings := by
        rw [Floor.sightings_cleared]
        exact List.mem_append_left _ hr
      exact .telling hget (hk worker) hmem

/-- A worker in its turn changes no duty but its own. -/
theorem Engine.Carries.workers {sq : Sequel} (h : e.Carries w jobId fl sq fl') :
    ∃ k : Worker σ → Worker σ, fl'.workers = fl.workers.modify w k := by
  cases h with
  | stay => exact ⟨id, (List.modify_id ..).symm⟩
  | stop => exact ⟨_, rfl⟩
  | free seeks =>
    obtain ⟨k, hk, -⟩ := seeks.workers
    exact ⟨k, hk⟩

namespace Floor

theorem workers_workerTurn (e : Engine) (hA : fl.Assigned) (w : Nat) :
    ∃ k : Worker σ → Worker σ, (e.workerTurn w fl).workers = fl.workers.modify w k := by
  have hcompose : ∀ k : Worker σ → Worker σ, ∃ k' : Worker σ → Worker σ,
      (Engine.idled w fl).workers.modify w k = fl.workers.modify w k' :=
    fun k => ⟨_, List.modify_modify_eq ..⟩
  generalize hfl' : e.workerTurn w fl = fl'
  cases hfl' ▸ e.serves_workerTurn hA w with
  | missing get => exact ⟨id, (List.modify_id ..).symm⟩
  | rest get done => exact ⟨_, rfl⟩
  | stop get duty => exact hcompose _
  | seek get busy off seeks =>
    obtain ⟨k, hk, -⟩ := seeks.workers
    rw [hk]
    exact hcompose k
  | @tend worker g v _ get lane own post next =>
    obtain ⟨k, hk⟩ := next.workers
    have hw : (v.tend e).1.flight.worker = w := (v.tends_tend e post).worker.trans own
    rw [hk, (putBack _ _ _).workers, hw, List.modify_modify_eq]
    exact hcompose _

/-! ## Moves -/

/-- A worker that waits for the receiver has a turn of its own, or goes on waiting. -/
theorem telling_step (e : Engine) (hA : fl.Assigned) {t : Turn} (ht : t ≠ .worker w)
    {worker : Worker σ} {due : Nat} {next : Bool → Reception σ} (get : fl.workers[w]? =
        some worker)
    (duty : worker.duty = .telling jobId due next) :
    ∃ worker', (e.step t fl).workers[w]? = some worker' ∧ worker'.duty =
    .telling jobId due next := by
  have hduties : ∀ {ws : List (Worker σ)}, ws.map Worker.duty = fl.workers.map Worker.duty →
      ∃ worker', ws[w]? = some worker' ∧ worker'.duty = .telling jobId due next := by
    intro ws hws
    have hget := congrArg (·[w]?) hws
    simp only [List.getElem?_map, get, Option.map_some, Option.map_eq_some_iff] at hget
    obtain ⟨worker', hget', hduty⟩ := hget
    exact ⟨worker', hget', hduty.trans duty⟩
  have hsteps := steps_step e t fl
  generalize e.step t fl = fl' at hsteps
  cases hsteps with
  | @desk f v c lane =>
    have hd : v.desk.Fits (e.cueTurn c v.desk) := e.fits_cueTurn rfl rfl (call_of_away lane) c
    have hown : (e.cueTurn c v.desk).flight.worker = v.flight.worker := hd.worker
    rw [(putBack f _ fl).workers, hown]
    by_cases hw : v.flight.worker = w
    -- The worker is not at this flight, so that it stays as it is.
    · have haway : v.post = .away := by
        by_contra hp
        obtain ⟨worker', get', hpost, -⟩ := worker_of_lane lane hp
        rw [hw, get] at get'
        rw [← Option.some.inj get', duty] at hpost
        exact hp hpost.symm
      rw [hd.post.2 haway, show Worker.stand (σ := σ) f .away (e.cueTurn c v.desk).call =
          id from rfl,
        List.modify_id]
      exact ⟨worker, get, duty⟩
    · rw [List.getElem?_modify_ne _ _ hw]
      exact ⟨worker, get, duty⟩
  | nobody => exact ⟨worker, get, duty⟩
  | worker u =>
    obtain ⟨k, hk⟩ := workers_workerTurn e hA u
    rw [hk, List.getElem?_modify_ne _ _ fun hu => ht (by rw [hu])]
    exact ⟨worker, get, duty⟩
  | receiver _ _ _ duties => exact hduties duties
  | stop _ _ _ duties => exact hduties duties
  | _ => exact hduties rfl

end Floor

/-- What was answered is answered. -/
theorem Answered.moves (h : Answered f w jobId fl.sightings) (hn : fl.Numbered)
    (hm : e.Moves fl fl') : Answered f w jobId fl'.sightings := by
  obtain ⟨ss, hseen, -⟩ := Floor.moves_tells hn hm
  have hsightings : fl'.sightings = fl.sightings ++ ss := by simp [Floor.sightings, hseen]
  rw [hsightings]
  exact h.append ss

namespace Floor

/-- **What has come so far does not go back.** -/
theorem Attended.moves (h : fl.Attended f w jobId) (hn : fl.Numbered) (hm : e.Moves fl fl') :
    fl'.Attended f w jobId := by
  cases h with
  | stopped hs => exact .stopped (hs.moves hn hm)
  | answered ha => exact .answered (ha.moves hn hm)
  | @telling worker due next t r get duty result =>
    have hmem : ⟨t, some f, .completed r⟩ ∈ fl'.sightings :=
      List.mem_reverse.2 (mem_seen_moves hn hm (List.mem_reverse.1 result))
    cases hm with
    | @turn u rest ready other =>
      have hA : { fl with ready := rest }.Assigned := assigned_of_same hn.assigned rfl rfl
      by_cases hu : u = .worker w
      · subst hu
        have hserves := e.serves_workerTurn hA w
        show (e.workerTurn w { fl with ready := rest }).Attended f w jobId
        generalize e.workerTurn w { fl with ready := rest } = fl' at hserves
        have hduty : ∀ worker', fl.workers[w]? = some worker' →
            worker'.duty = .telling jobId due next := by
          intro worker' get'
          rw [get] at get'
          exact Option.some.inj get' ▸ duty
        cases hserves with
        | missing get' =>
          have hnone : fl.workers[w]? = none := get'
          rw [get] at hnone
          cases hnone
        | rest get' done =>
          rw [hduty _ get'] at done
          cases done
        | stop get' fresh =>
          rw [hduty _ get'] at fresh
          cases fresh
        | @seek worker' quick _ get' busy off seeks =>
          rw [hduty _ get'] at seeks
          have hidled : (Engine.idled w { fl with ready := rest }).workers[w]? =
              some { worker' with call := .idle } := by
            have hget : fl.workers[w]? = some worker' := get'
            simp [Engine.idled, modifyWorker, hget]
          exact seeks.attended hidled result
        | tend get' lane own post =>
          obtain ⟨worker', hget', hpost, -⟩ := worker_of_lane lane post
          rw [own] at hget'
          rw [hduty _ hget'] at hpost
          exact absurd hpost.symm post
      · obtain ⟨worker', get', duty'⟩ := telling_step e hA hu get duty
        exact .telling get' duty' hmem
    | round ready next =>
      have get' : fl'.workers[w]? = some worker := by
        rw [(nextRound_eq_some next).2.2]
        exact get
      exact .telling get' duty hmem

/-- A worker that leaves a flight in its turn tells the receiver, unless it is stopped. -/
theorem attended_workerTurn (e : Engine) (hA : fl.Assigned) {v : Lane} (hv : fl.lane? f = some v)
    (hp : v.post ≠ .away) (hleft : (v.workerTurn e).post = .away) :
    (e.workerTurn v.flight.worker fl).Attended f v.flight.worker v.flight.job.id := by
  have htended := v.tended_tend e hp
  have hstay := (Lane.post_workerTurn e hp).1
  have hput := putBack f (v.tend e).1 (Engine.idled v.flight.worker fl)
  obtain ⟨hcarries, worker, get⟩ := carries_of_lane e hA hv hp
  generalize (v.tend e).2 = sq at htended hstay hcarries
  generalize e.workerTurn v.flight.worker fl = fl' at hcarries
  cases hcarries with
  | stay =>
    rw [hstay rfl] at hleft
    exact absurd hleft (v.tends_tend e hp).post
  | stop => exact .stopped (stopped_endWorker get)
  | @free status quick _ seeks =>
    -- The result is seen at the desk before the receiver is told.
    have hresult : ∃ t r, ⟨t, some f, .completed r⟩ ∈
        ((Engine.idled v.flight.worker fl).put f (v.tend e).1).sightings := by
      cases htended with
      | @concludes _ ms uncut reason watch logs notes orders =>
        refine ⟨(Engine.idled v.flight.worker fl).now, e.resultAt v.flight.job
          (some v.flight.takenAt) v.around.now status v.flight.steps, ?_⟩
        rw [sightings, hput.seen, notes]
        simp [Engine.verdictNotes]
    obtain ⟨t, r, hr⟩ := hresult
    exact seeks.attended get hr

/-- **A worker that leaves a flight tells the receiver**, unless it is stopped. -/
theorem attended_of_left (h : fl.Orderly) (hm : e.Moves fl fl') {v v' : Lane}
    (hv : fl.lane? f = some v) (hv' : fl'.lane? f = some v') (hp : v.post ≠ .away)
    (hp' : v'.post = .away) : fl'.Attended f v.flight.worker v.flight.job.id := by
  obtain ⟨rest, items, -, hlane, rfl, rfl⟩ := turn_of_left h hm hv hv' hp hp'
  have hA : { fl with ready := rest }.Assigned := assigned_of_same h.numbered.assigned rfl rfl
  exact attended_workerTurn e hA (v := { v with ready := items }) hlane hp hp'

end Floor

end Conveyor
