import Conveyor.Proofs.Run.Answers
import Conveyor.Proofs.Schedule.Receipts

/-!
# What is written of a sink

While the jobs of a run are scheduled, each result that comes is told to the sink by the worker
that has it, in the same turn. Whatever the sink does about it, it leaves alone what is written
of it.

- `Reception.proceed_kept`: a turn of a sink does not change what is written of it.
- `recordings`: what a sink is told of the results of jobs.
- `Floor.Noted`: it is written down that the sink was told of the results that have come.
- `Floor.Noted.leads`: **so it is at every moment of a schedule**.
- `Floor.Vacant.told_await`: while somebody waits for a sink, nothing is written of it.
-/

namespace Conveyor

variable {σ : Type}

namespace Reception

/-- Where a turn leaves a reception of which it is written what it was told. -/
def Rest.kept : Rest σ → Rest (Notebook σ)
  | ended ending => ended ending
  | waiting span next => waiting span fun cut => (next cut).kept

/-- **A turn of a sink is as if nothing was written of it**, and what is written stays. -/
theorem proceed_kept (s : Surroundings) (a : Reception σ) (n : Notebook σ) :
    a.kept.proceed s n =
      ⟨(a.proceed s n.memory).notes, { n with memory := (a.proceed s n.memory).memory },
        (a.proceed s n.memory).rest.kept⟩ := by
  induction a generalizing n with
  | finish ending => rfl
  | wait span next ih => rfl
  | note d next ih =>
    rw [kept, proceed, ih]
    rfl
  | clock next ih => exact ih _ n
  | poll next ih => exact ih _ n
  | look next ih => exact ih _ n
  | keep m next ih => exact ih { n with memory := m }

end Reception

/-- What a sink is told of the results of jobs. -/
def recordings (runId : Text) (completed : List (Nat × JobResult)) : List (Nat × SinkCall) :=
  completed.map fun c => (c.1, .recordJob runId c.2)

theorem recordings_append (runId : Text) (cs ds : List (Nat × JobResult)) :
    recordings runId (cs ++ ds) = recordings runId cs ++ recordings runId ds := List.map_append

/-- A worker that waits for a sink waits for one of which it is written what it was told. -/
def Duty.Kept (d : Duty (Notebook σ)) : Prop :=
  ∀ jobId due next, d = .telling jobId due next → ∃ k : Bool → Reception σ, ∀ cut, next cut =
    (k cut).kept

/-- After the first calls, the sink was told of the results that have come, but for those that
are still `owed` to it. -/
structure Floor.Noted (sink : Sink σ) (runId : Text) (first : List (Nat × SinkCall))
    (owed : List (Nat × JobResult)) (fl : Floor (Notebook σ)) : Prop where
  receiver : fl.receiver = record (some sink) runId
  told : fl.memory.told ++ recordings runId owed =
    first ++ recordings runId (completedAmong fl.sightings)
  kept : ∀ d ∈ fl.workers.map Worker.duty, d.Kept

namespace Floor

variable {e : Engine} {sink : Sink σ} {runId : Text} {first : List (Nat × SinkCall)}
  {owed owed' : List (Nat × JobResult)} {fl fl' m : Floor (Notebook σ)} {w : Nat}

/-! ## Changes that the sink has nothing to do with -/

theorem Noted.of_same (h : fl.Noted sink runId first owed) (hreceiver : fl'.receiver =
    fl.receiver)
    (hmemory : fl'.memory = fl.memory) (hseen : fl'.seen = fl.seen)
    (hduties : fl'.workers.map Worker.duty = fl.workers.map Worker.duty) :
    fl'.Noted sink runId first owed := by
  refine ⟨hreceiver.trans h.receiver, ?_, hduties ▸ h.kept⟩
  rw [hmemory, sightings, hseen]
  exact h.told

/-- Results are seen, of which the sink is still to be told. -/
theorem Noted.see (h : fl.Noted sink runId first owed) (f : Option Nat) (ns : List Note) :
    (fl.see f ns).Noted sink runId first
      (owed ++ completedAmong (ns.map fun n => ⟨fl.now, f, n⟩)) := by
  refine ⟨h.receiver, ?_, h.kept⟩
  have hsightings : (fl.see f ns).sightings = fl.sightings ++ ns.map fun n =>
      ⟨fl.now, f, n⟩ := by
    simp [sightings, Floor.see]
  rw [hsightings, completedAmong_append, recordings_append, recordings_append,
      ← List.append_assoc,
    ← List.append_assoc]
  exact congrArg (· ++ _) h.told

/-- What is seen besides results is nothing to the sink. -/
theorem Noted.see_other (h : fl.Noted sink runId first owed) {f : Option Nat} {ns : List Note}
    (hns : ∀ r, .completed r ∉ ns) : (fl.see f ns).Noted sink runId first owed := by
  have hnone : completedAmong (ns.map fun n => (⟨fl.now, f, n⟩ : Sighting)) = [] := by
    refine completedAmong_eq_nil fun s hs r hr => ?_
    obtain ⟨n, hn, rfl⟩ := List.mem_map.1 hs
    exact hns r (hr ▸ hn)
  have hseen := h.see f ns
  rwa [hnone, List.append_nil] at hseen

/-- A worker gets another duty. -/
theorem Noted.modify (h : fl.Noted sink runId first owed) {ws : List (Worker (Notebook σ))}
    {k : Worker (Notebook σ) → Worker (Notebook σ)} (hws : ws = fl.workers.modify w k)
    (hk : ∀ x ∈ fl.workers, (k x).duty.Kept) :
    ({ fl with workers := ws } : Floor (Notebook σ)).Noted sink runId first owed := by
  refine ⟨h.receiver, h.told, fun d hd => ?_⟩
  obtain ⟨x, hx, rfl⟩ := List.mem_map.1 hd
  subst hws
  obtain ⟨j, hj⟩ := List.mem_iff_getElem?.1 hx
  rw [List.getElem?_modify] at hj
  obtain ⟨y, hy, rfl⟩ := Option.map_eq_some_iff.1 hj
  have hmem := List.mem_of_getElem? hy
  split
  · exact hk y hmem
  · exact h.kept _ (List.mem_map_of_mem hmem)

theorem Noted.endWorker (h : fl.Noted sink runId first owed) (w : Nat) (stopped : Bool) :
    (Engine.endWorker w stopped fl).Noted sink runId first owed := by
  have hdone := h.modify (w := w) (k := fun x => { x with duty := .done stopped }) rfl
    fun _ _ _ _ _ hd => by cases hd
  exact hdone.of_same rfl rfl rfl rfl

theorem Noted.attend (h : fl.Noted sink runId first owed) (w : Nat) (jobId : Text) (span : Nat)
    (next : Bool → Reception σ) :
    (Engine.attend w jobId span (fun cut => (next cut).kept) fl).Noted sink runId first
    owed := by
  obtain ⟨ws, ts, timers, hattend, ⟨k, hws, hk⟩, -⟩ :=
    Engine.attend_eq w jobId span (fun cut => (next cut).kept) fl
  rw [hattend]
  refine (h.modify hws fun x _ jobId' due' next' hd => ⟨next, fun cut => ?_⟩).of_same rfl
    rfl rfl rfl
  rw [hk x] at hd
  cases hd
  rfl

/-! ## Telling the sink -/

/-- A turn of a sink that is not told anything new. -/
theorem Noted.hear (h : fl.Noted sink runId first owed') (w : Nat) (jobId : Text)
    {s : Reception.Stretch (Notebook σ)} (hnotes : ∀ r, .completed r ∉ s.notes)
    (htold : s.memory.told ++ recordings runId owed = fl.memory.told ++ recordings runId owed')
    {x : Reception.Rest σ} (hrest : s.rest = x.kept) :
    (Engine.hear w jobId s fl).1.Noted sink runId first owed := by
  have hseen := h.see_other (f := none) hnotes
  have hheard : ({ fl.see none s.notes with memory := s.memory } : Floor (Notebook σ)).Noted
      sink runId
      first owed := ⟨hseen.receiver, htold.trans hseen.told, hseen.kept⟩
  unfold Engine.hear
  rw [hrest]
  cases x with
  | waiting span next => exact hheard.attend w jobId span next
  | ended ending =>
    cases ending with
    | done u => exact hheard.see_other (by simp)
    | failed fault => exact hheard.see_other (by simp)
    | interrupted => exact hheard.endWorker w true

/-- No result is made known by a reception. -/
theorem completed_not_mem_proceed (s : Surroundings) (a : Reception σ) (m : σ) (r : JobResult) :
    .completed r ∉ (a.proceed s m).notes := by
  intro hr
  obtain ⟨ds, hds⟩ := a.exists_deeds s m
  rw [hds] at hr
  obtain ⟨d, -, hd⟩ := List.mem_map.1 hr
  have hno := d.isVerdict_toNote
  rw [hd] at hno
  cases hno

/-- A sink goes on that has waited. -/
theorem Noted.listen (h : fl.Noted sink runId first []) (w : Nat) (jobId : Text)
    (a : Reception σ) :
    (Engine.hear w jobId (a.kept.proceed fl.around fl.memory) fl).1.Noted sink runId first
    [] := by
  refine h.hear w jobId (fun r => completed_not_mem_proceed _ _ _ r) ?_
    (congrArg Reception.Stretch.rest (a.proceed_kept fl.around fl.memory))
  rw [a.proceed_kept]

/-- **The sink is told the result that is owed to it.** -/
theorem Noted.tell {time : Nat} {r : JobResult} (h : fl.Noted sink runId first [(time, r)])
    (htime : time = fl.now) (w : Nat) : (Engine.tell w r fl).1.Noted sink runId first [] := by
  subst htime
  have hproceed : (record (some sink) runId r).proceed fl.around fl.memory =
      let t := (sink (.recordJob runId r)).kept.proceed fl.around
        { fl.memory with told := fl.memory.told ++ [(fl.now, .recordJob runId r)] }
      { t with notes := .log .info ("Job " ++ r.jobId ++ " finished: " ++ r.status.word) ::
        t.notes } := rfl
  refine h.hear w r.jobId (fun r' => completed_not_mem_proceed _ _ _ r') ?_
    (x := ((sink (.recordJob runId r)).proceed fl.around fl.memory.memory).rest) ?_ <;>
    rw [h.receiver, hproceed, Reception.proceed_kept]
  exact List.append_nil _

theorem Noted.turnAway (h : fl.Noted sink runId first []) (i : JobInstance) :
    (e.turnAway i fl).Noted sink runId first [(fl.now, e.refusedAt i fl.now)] :=
  h.see none [.turnedAway i.id, .completed (e.refusedAt i fl.now)]

theorem Noted.launch (h : fl.Noted sink runId first []) (w : Nat) (i : JobInstance) :
    (Engine.launch w i fl).Noted sink runId first [] := by
  have hseen : (fl.see (some fl.flights.length) [.log .debug (Engine.pickUpMessage w i)]).Noted
      sink
      runId first [] := h.see_other (by simp)
  have hwatching := hseen.modify (w := w)
    (k := fun x => { x with duty := .watching fl.flights.length }) rfl fun _ _ _ _ _ hd => by
      cases hd
  rw [launch_eq]
  exact hwatching.of_same rfl rfl rfl rfl

/-- A worker that looks for a job tells the sink of those that it turns away. -/
theorem Noted.takeJobs (w : Nat) {jobs : List JobInstance} (h : fl.Noted sink runId first []) :
    (e.takeJobs w jobs fl).Noted sink runId first [] := by
  induction jobs generalizing fl with
  | nil =>
    rw [Engine.takeJobs]
    have hnone : ({ fl with queue := [] } : Floor (Notebook σ)).Noted sink runId first [] :=
      h.of_same rfl rfl rfl rfl
    exact hnone.endWorker w false
  | cons i rest ih =>
    have hrest : ({ fl with queue := rest } : Floor (Notebook σ)).Noted sink runId first [] :=
      h.of_same rfl rfl rfl rfl
    have htold := (hrest.turnAway (e := e) i).tell rfl w
    rw [Engine.takeJobs]
    dsimp only
    split
    · split
      · exact ih htold
      · exact htold
    · exact hrest.launch w i

theorem Noted.resume (w : Nat) {told : Floor (Notebook σ) × Bool}
    (h : told.1.Noted sink runId first []) : (e.resume w told).Noted sink runId first [] := by
  unfold Engine.resume
  split
  · exact h.takeJobs w
  · exact h

/-! ## Moves -/

/-- A flight is put back after a turn. -/
theorem Noted.put (h : fl.Noted sink runId first []) (f : Nat) (d : Desk) :
    (fl.put f d).Noted sink runId first (completedAmong (fl.told f d.notes)) := by
  have hput := putBack f d fl
  have hstand := (h.see (some f) d.notes).modify hput.workers ?_
  · exact hstand.of_same hput.receiver hput.memory hput.seen rfl
  · intro x hx jobId due next hd
    cases hpost : d.post with
    | away =>
      rw [hpost] at hd
      exact h.kept _ (List.mem_map_of_mem hx) jobId due next hd
    | watching =>
      rw [hpost] at hd
      cases hd
    | preempting cause =>
      rw [hpost] at hd
      cases hd

/-- The result of a job whose worker is done with it is owed to the sink. -/
theorem completedAmong_concludes {f : Nat} {v : Lane} {d : Desk} {status : JobStatus}
    {ms : List Note}
    {fl₀ : Floor (Notebook σ)} (htends : v.idled.desk.Tends e d)
    (logs : ∀ n ∈ ms, ∃ level message, n = .log level message)
    (notes : d.notes = ms ++ e.verdictNotes v.flight v.around.now status) :
    completedAmong (fl₀.told f d.notes) = [(fl₀.now, e.resultOf status d)] := by
  have hresult : e.resultOf status d =
      e.resultAt v.flight.job (some v.flight.takenAt) v.around.now status v.flight.steps := by
    unfold Engine.resultOf
    rw [htends.job, htends.takenAt, htends.steps, htends.around]
    rfl
  have htold : fl₀.told f d.notes =
      fl₀.told f ms ++ fl₀.told f (e.verdictNotes v.flight v.around.now status) := by
    rw [notes]
    exact List.map_append
  rw [htold, completedAmong_append, completedAmong_told (Lane.not_mem_logs logs), hresult]
  rfl

theorem Noted.workerTurn (h : fl.Noted sink runId first []) (hA : fl.Assigned) (w : Nat) :
    (e.workerTurn w fl).Noted sink runId first [] := by
  have hidle : (Engine.idled w fl).Noted sink runId first [] :=
    h.of_same rfl rfl rfl (duty_modify_call fl.workers w .idle)
  have hworks := e.works_workerTurn hA w
  generalize e.workerTurn w fl = fl' at hworks
  cases hworks with
  | missing get => exact h
  | rest get done => exact hidle
  | stop get duty cut => exact hidle.endWorker w true
  | seek get duty => exact hidle.takeJobs w
  | @listen worker jobId due next cut get duty =>
    obtain ⟨k, hk⟩ := h.kept worker.duty (List.mem_map_of_mem (List.mem_of_getElem? get)) _
      _ _ duty
    rw [hk cut]
    exact (hidle.listen w jobId (k cut)).resume w
  | @tend worker f v get lane own post =>
    have hput := hidle.put f (v.tend e).1
    have htends := v.tends_tend e post
    have haround : v.around = fl.around := around_of_lane lane
    have hnow : ((Engine.idled w fl).put f (v.tend e).1).now = (Engine.idled w fl).now := by
      rw [now, (putBack f _ _).around, htends.around]
      exact congrArg Surroundings.now haround
    have htended := v.tended_tend e post
    generalize (v.tend e).2 = sq at htended
    cases htended with
    | preempts post reason desk =>
      rw [completedAmong_told (Lane.not_mem_logs desk.logged.1)] at hput
      exact hput
    | stops post watch notes orders =>
      rw [completedAmong_told (Lane.not_mem_logs notes)] at hput
      exact hput.endWorker w true
    | concludes uncut reason watch logs notes orders =>
      rw [completedAmong_concludes htends logs notes] at hput
      exact (hput.tell hnow.symm w).resume w

theorem Noted.step (h : fl.Noted sink runId first []) (hA : fl.Assigned) (t : Turn) :
    (e.step t fl).Noted sink runId first [] := by
  have hsteps := steps_step e t fl
  generalize e.step t fl = fl' at hsteps
  cases hsteps with
  | @desk f v c lane =>
    have hput := h.put f (e.cueTurn c v.desk)
    rwa [completedAmong_told fun r hr => (e.stays_cueTurn (d := v.desk) rfl rfl c).2.1 r
      hr] at hput
  | nobody c lane => exact h
  | worker w => exact h.workerTurn hA w
  | receiver w ws ts duties => exact h.of_same rfl rfl rfl duties
  | workerDone w ts call calls => exact h.of_same rfl rfl rfl rfl
  | scheduler => exact h
  | errand act g ts watches =>
    have hquiet : ∀ r, .completed r ∉ (act.proceed fl.around).notes := fun r hr => by
      have hout := act.outside_proceed fl.around _ hr
      cases hout
    exact (h.see_other (f := none) hquiet).of_same rfl rfl rfl rfl
  | stop ws ts doom duties => exact h.of_same rfl rfl rfl duties

/-- **At every moment of a schedule the sink was told of the results that have come.** -/
theorem Noted.leads (h : fl.Noted sink runId first []) {jobs : List JobInstance} {n : Nat}
    (hu : fl.Underway e jobs n) (hl : e.Leads fl m) : m.Noted sink runId first [] := by
  have hrun := hl.keeps (P := fun m => m.Underway e jobs n ∧ m.Noted sink runId first [])
    ?_ ⟨hu, h⟩
  · exact hrun.2
  · rintro m m' ⟨hu, h⟩ hm
    refine ⟨hu.moves hm, ?_⟩
    cases hm with
    | @turn t rest ready other =>
      have hpop : ({ m with ready := rest } : Floor (Notebook σ)).Noted sink runId first [] :=
        h.of_same rfl rfl rfl rfl
      exact hpop.step (assigned_of_same hu.orderly.numbered.assigned rfl rfl) t
    | round ready next =>
      rw [(nextRound_eq_some next).2.2]
      exact h.of_same rfl rfl rfl rfl

/-- When a schedule begins, nothing is owed to the sink. -/
theorem Open.noted_staff (h : fl.Open e) (hreceiver : fl.receiver = record (some sink) runId)
    (jobs : List JobInstance) : (e.staff jobs fl).Noted sink runId fl.memory.told [] := by
  have hnone : completedAmong (e.staff jobs fl).sightings = [] := by
    refine completedAmong_eq_nil fun s hs r hr => ?_
    have hout := (h.seen s (List.mem_reverse.1 hs)).2
    rw [hr] at hout
    cases hout
  refine ⟨hreceiver, ?_, fun d hd => ?_⟩
  · rw [hnone]
    rfl
  · obtain ⟨x, hx, rfl⟩ := List.mem_map.1 hd
    rw [(List.mem_replicate.1 hx).2]
    intro jobId due next hd
    cases hd

/-! ## Waiting for the sink -/

/-- **Nothing is written of a sink while somebody waits for it.** -/
theorem Vacant.told_await {a : Reception σ} {ending : Ending Unit} (h : fl.Vacant e)
    (hrun : e.await a.kept fl = some (ending, fl')) : fl'.memory.told = fl.memory.told := by
  induction a generalizing fl with
  | finish ending =>
    cases hrun
    rfl
  | note d next ih =>
    rw [Reception.kept, Engine.await] at hrun
    have hsame := ih (h.see _) hrun
    exact hsame
  | wait span next ih =>
    rw [Reception.kept, Engine.await] at hrun
    split at hrun
    · rename_i fl₁ hadvance
      obtain ⟨m, rest, -, rfl, hmemory, hvacant⟩ :=
        h.exists_pause_end (P := fun _ => True) (fun _ _ _ _ _ _ => trivial) trivial hadvance
      rw [ih _ hvacant hrun]
      exact congrArg Notebook.told hmemory
    · cases hrun
  | clock next ih => exact ih _ h hrun
  | poll next ih => exact ih _ h hrun
  | look next ih => exact ih _ h hrun
  | keep m next ih =>
    rw [Reception.kept, Engine.await, Engine.await] at hrun
    have hsame := ih (h.remember _) hrun
    exact hsame

end Floor

end Conveyor
