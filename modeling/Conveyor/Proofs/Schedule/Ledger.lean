import Conveyor.Proofs.Schedule.Verdicts

/-!
# No job is lost

Every job of a schedule is in the queue, in flight, or has a result, at every moment; and every
result that was seen belongs to a job. A worker leaves a flight only with a result, unless it is
stopped.

- `Lane.Passes.same`, `Lane.Passes.seen`: a lane is always that of the same job, and nothing that
  was seen is forgotten.
- `Floor.moves_tells`: what is seen in a move.
- `Floor.retired_moves`: **a worker leaves a flight with a result, or because it is stopped.**
- `Ledger`: where the jobs are; `Ledger.moves` shows that moves keep it.
-/

namespace Conveyor

variable {σ : Type}

namespace Lane

variable {e : Engine} {v v' : Lane}

theorem same_put {d : Desk} (hd : v.desk.Fits d) : v.flight.Same (v.put d).flight := by
  rw [put_eq]
  refine ⟨?_, ?_, ?_⟩
  · rw [job_heard]
    exact hd.job
  · rw [worker_heard]
    exact hd.worker
  · rw [takenAt_heard]
    exact hd.takenAt

/-- A turn of the worker, as a desk that is put back. -/
theorem flight_workerTurn (e : Engine) (hp : v.post ≠ .away) :
    (v.workerTurn e).flight = (v.idled.put (v.tend e).1).flight ∧
      (v.workerTurn e).seen = (v.idled.put (v.tend e).1).seen := by
  rw [workerTurn_eq e hp, after]
  split <;> exact ⟨rfl, rfl⟩

/-- A lane is always that of the same job. -/
theorem Passes.same (h : v.Passes e v') (hidle : v.post = .away → v.call = .idle) :
    v.flight.Same v'.flight := by
  cases h with
  | @own i rest ready =>
    cases i with
    | cue c => exact same_put (v := { v with ready := rest }) (e.fits_cueTurn rfl rfl hidle c)
    | worker =>
      by_cases hp : v.post = .away
      · show v.flight.Same ({ v with ready := rest }.workerTurn e).flight
        rw [workerTurn_away e (v := { v with ready := rest }) hp]
        exact ⟨rfl, rfl, rfl⟩
      · show v.flight.Same ({ v with ready := rest }.workerTurn e).flight
        rw [(flight_workerTurn e (v := { v with ready := rest }) hp).1]
        exact same_put (v := { v with ready := rest }.idled)
          ((Lane.tends_tend e (v := { v with ready := rest }) hp).fits hp)
  | other now canceled =>
    rw [moveTo_eq]
    exact ⟨job_heard .., worker_heard .., takenAt_heard ..⟩
  | cut =>
    obtain ⟨call, items, hcut, -⟩ := v.cut_eq
    rw [hcut]
    exact ⟨rfl, rfl, rfl⟩
  | round ready now later timeout => exact ⟨rfl, rfl, rfl⟩

/-- Nothing that was seen of a flight is forgotten. -/
theorem Passes.seen (h : v.Passes e v') : v.seen <+: v'.seen := by
  have hput : ∀ (u : Lane) (d : Desk), u.seen <+: (u.put d).seen := by
    intro u d
    rw [put_eq]
    exact List.prefix_append _ _
  cases h with
  | @own i rest ready =>
    cases i with
    | cue c => exact hput { v with ready := rest } _
    | worker =>
      by_cases hp : v.post = .away
      · show v.seen <+: ({ v with ready := rest }.workerTurn e).seen
        rw [workerTurn_away e (v := { v with ready := rest }) hp]
        exact List.prefix_refl _
      · show v.seen <+: ({ v with ready := rest }.workerTurn e).seen
        rw [(flight_workerTurn e (v := { v with ready := rest }) hp).2]
        exact hput { v with ready := rest }.idled _
  | @other s now canceled =>
    have hseen : (v.moveTo s).seen = v.seen := by rw [moveTo_eq]
    exact hseen ▸ List.prefix_refl _
  | cut =>
    exact v.seen_cut ▸ List.prefix_refl _
  | round ready now later timeout => exact List.prefix_refl _

/-- Time passes between rounds only. -/
theorem now_turn (e : Engine) (hidle : v.post = .away → v.call = .idle) (i : Item) :
    (v.turn e i).around.now = v.around.now := by
  cases i with
  | worker => exact congrArg Surroundings.now (v.around_workerTurn e)
  | cue c =>
    show (v.put (e.cueTurn c v.desk)).around.now = v.around.now
    rw [put_eq]
    exact (e.fits_cueTurn (d := v.desk) rfl rfl hidle c).now

/-- The clock does not go back. -/
theorem Passes.now_le (h : v.Passes e v') (hidle : v.post = .away → v.call = .idle) :
    v.around.now ≤ v'.around.now := by
  cases h with
  | @own i rest ready =>
    exact Nat.le_of_eq (now_turn e (v := { v with ready := rest }) hidle i).symm
  | other now canceled =>
    rw [around_moveTo]
    exact Nat.le_of_eq now.symm
  | cut => exact Nat.le_of_eq (congrArg Surroundings.now v.around_cut).symm
  | round ready now later timeout => exact now

/-- Who cancels the run does so once and for all. -/
theorem Passes.canceled (h : v.Passes e v') (hidle : v.post = .away → v.call = .idle)
    (hc : v.around.canceled = true) : v'.around.canceled = true := by
  cases h with
  | @own i rest ready =>
    cases i with
    | cue c =>
      have hfits := e.fits_cueTurn (d := v.desk) rfl rfl hidle c
      show (Lane.put (e.cueTurn c v.desk) { v with ready := rest }).around.canceled = true
      rw [put_eq]
      show (e.cueTurn c v.desk).around.canceled = true
      rw [hfits.canceled]
      simp [canceledAfter, desk, hc]
    | worker =>
      show (Lane.workerTurn e { v with ready := rest }).around.canceled = true
      rw [around_workerTurn]
      exact hc
  | other now canceled =>
    rw [around_moveTo]
    exact canceled hc
  | cut =>
    rw [around_cut]
    exact hc
  | round ready now later timeout => exact hc

/-- No time passes as long as somebody is to have a turn. -/
theorem Passes.now_eq (h : v.Passes e v') (hidle : v.post = .away → v.call = .idle)
    (hurgent : v.items ≠ []) : v'.around.now = v.around.now := by
  cases h with
  | @own i rest ready => exact now_turn e (v := { v with ready := rest }) hidle i
  | other now canceled =>
    rw [around_moveTo]
    exact now
  | cut => exact congrArg Surroundings.now v.around_cut
  | round ready now later timeout =>
    refine later fun hnil => hurgent ?_
    rw [items, ready, hnil]
    rfl

theorem notes_workerTurn (e : Engine) (hp : v.post ≠ .away) :
    (v.workerTurn e).notes = v.notes ++ (v.tend e).1.notes := by
  unfold notes
  rw [(flight_workerTurn e hp).2]
  exact notes_put _ v.idled

theorem body_workerTurn (e : Engine) (hp : v.post ≠ .away) :
    (v.workerTurn e).flight.body = v.flight.body := by
  rw [(flight_workerTurn e hp).1, body_put]
  exact (v.tends_tend e hp).body

/-- A worker stays with a job that it does not end, unless it is stopped. -/
theorem post_workerTurn (e : Engine) (hp : v.post ≠ .away) :
    ((v.tend e).2 = .stay → (v.workerTurn e).post = (v.tend e).1.post) ∧
      ((v.tend e).2 ≠ .stay → (v.workerTurn e).post = .away) := by
  rw [workerTurn_eq e hp, after]
  refine ⟨fun hsq => ?_, fun hsq => ?_⟩
  · rw [hsq]
    exact post_put ..
  · split
    · rename_i hsq'
      exact absurd hsq' hsq
    · rfl

/-- What a turn of the worker does to the lane of its job. -/
inductive Served (e : Engine) (v v' : Lane) : Prop
  /-- The body is interrupted, or given up. -/
  | preempts {cause : Cause} (post : v.post = .watching)
      (reason : Preempts (decide (v.call = .cut)) v.flight cause) (next : v'.post =
          .preempting cause)
      (results : ∀ t r, (t, .completed r) ∈ v'.seen → (t, .completed r) ∈ v.seen)
  /-- The job has its result. -/
  | concludes {status : JobStatus}
      (reason : v.post = .watching ∧ v.flight.body = .ended (.done status) ∨
        ∃ cause, v.post = .preempting cause ∧ cause.status? = some status)
      (next : v'.post = .away)
      (results : ∀ t r, (t, .completed r) ∈ v'.seen → (t, .completed r) ∈ v.seen ∨
        t = v.around.now ∧
          r = e.resultAt v.flight.job (some v.flight.takenAt) v.around.now status v.flight.steps)
  /-- The worker is stopped. -/
  | stops (post : ∃ cause, v.post = .preempting cause) (next : v'.post = .away)
      (results : ∀ t r, (t, .completed r) ∈ v'.seen → (t, .completed r) ∈ v.seen)

theorem seen_workerTurn (e : Engine) (hp : v.post ≠ .away) :
    (v.workerTurn e).seen = v.seen ++ (v.tend e).1.notes.map fun n => (v.around.now, n) := by
  rw [(flight_workerTurn e hp).2]
  exact seen_put ..

theorem served_workerTurn (e : Engine) (hp : v.post ≠ .away) : v.Served e (v.workerTurn e) := by
  have htended := v.tended_tend e hp
  have hseen := seen_workerTurn e hp
  have hlogs : (∀ n ∈ (v.tend e).1.notes, ∃ level message, n = .log level message) →
      ∀ t r, (t, .completed r) ∈ (v.workerTurn e).seen → (t, .completed r) ∈ v.seen := by
    intro h t r hr
    rw [hseen] at hr
    exact (List.mem_append.1 hr).resolve_right (not_mem_timed (not_mem_logs h) _ t r)
  obtain ⟨hstay, hleft⟩ := post_workerTurn e hp
  -- What the worker does next says which of the three turns this is.
  generalize (v.tend e).2 = sq at htended hstay hleft
  cases htended with
  | preempts post reason desk =>
    exact .preempts post reason ((hstay rfl).trans desk.post) (hlogs desk.logged.1)
  | @concludes status ms uncut reason watch logs notes orders =>
    refine .concludes reason (hleft fun h => by cases h) fun t r hr => ?_
    rw [hseen, notes] at hr
    refine (List.mem_append.1 hr).imp id fun hr => ?_
    rw [List.map_append] at hr
    have hr := (List.mem_append.1 hr).resolve_left (not_mem_timed (not_mem_logs logs) _ t r)
    simpa [Engine.verdictNotes] using hr
  | stops post watch notes orders =>
    exact .stops post (hleft fun h => by cases h) (hlogs notes)

/-- A worker that leaves its job was stopped, or has given the job a result. -/
theorem stop_or_completed (e : Engine) (hp : v.post ≠ .away) (hleft : (v.workerTurn e).post =
    .away) :
    (v.tend e).2 = .stop ∨ ∃ t r, (t, .completed r) ∈ (v.workerTurn e).seen := by
  have htended := v.tended_tend e hp
  have hstay := (post_workerTurn e hp).1
  rw [seen_workerTurn e hp]
  generalize (v.tend e).2 = sq at htended hstay
  cases htended with
  | preempts post reason desk =>
    rw [hstay rfl, desk.post] at hleft
    cases hleft
  | @concludes status ms uncut reason watch logs notes orders =>
    rw [notes]
    exact .inr ⟨_, _, List.mem_append_right _
      (List.mem_map.2 ⟨_, List.mem_append_right _ (List.mem_cons_of_mem _ List.mem_cons_self),
        rfl⟩)⟩
  | stops post watch notes orders => exact .inl rfl

/-- What a move does to what the worker does about a flight: nothing, unless it has its turn. -/
theorem Passes.quiet_or_turn (h : v.Passes e v') :
    v'.post = v.post ∧ (∀ t r, (t, .completed r) ∈ v'.seen → (t, .completed r) ∈ v.seen) ∨
      v.post ≠ .away ∧ ∃ rest, v.ready = .worker :: rest ∧
        v' = ({ v with ready := rest } : Lane).workerTurn e := by
  cases h with
  | @own i rest ready =>
    cases i with
    | cue c =>
      obtain ⟨hpost, hresults, -⟩ := e.stays_cueTurn (d := v.desk) rfl rfl c
      left
      show (Lane.put (e.cueTurn c v.desk) { v with ready := rest }).post = v.post ∧
        ∀ t r, _ ∈ (Lane.put (e.cueTurn c v.desk) { v with ready := rest }).seen → _
      rw [put_eq]
      exact ⟨hpost, fun t r hr =>
        (List.mem_append.1 hr).resolve_right (not_mem_timed hresults _ t r)⟩
    | worker =>
      by_cases hp : v.post = .away
      · left
        show ({ v with ready := rest }.workerTurn e).post = v.post ∧
          ∀ t r, _ ∈ ({ v with ready := rest }.workerTurn e).seen → _
        rw [workerTurn_away e (v := { v with ready := rest }) hp]
        exact ⟨rfl, fun _ _ => id⟩
      · exact .inr ⟨hp, rest, ready, rfl⟩
  | other now canceled =>
    left
    rw [moveTo_eq]
    exact ⟨rfl, fun _ _ => id⟩
  | cut =>
    left
    refine ⟨post_cut v, fun t r hr => ?_⟩
    rwa [seen_cut] at hr
  | round ready now later timeout => exact .inl ⟨rfl, fun _ _ => id⟩

/-- A worker leaves a flight in its own turn only. -/
theorem Passes.left (h : v.Passes e v') (hp : v.post ≠ .away) (hp' : v'.post = .away) :
    ∃ rest, v.ready = .worker :: rest ∧ v' = ({ v with ready := rest } : Lane).workerTurn e := by
  rcases h.quiet_or_turn with ⟨hpost, -⟩ | ⟨-, hturn⟩
  · exact absurd (hpost.symm.trans hp') hp
  · exact hturn

/-- A worker does not come back to a flight. -/
theorem Passes.away (h : v.Passes e v') (hpost : v.post = .away) : v'.post = .away := by
  rcases h.quiet_or_turn with ⟨hsame, -⟩ | ⟨hp, -⟩
  · exact hsame.trans hpost
  · exact absurd hpost hp

/-- A worker that watches a flight did so before. -/
theorem Passes.watching (h : v.Passes e v') (hpost : v'.post = .watching) :
    v.post = .watching := by
  rcases h.quiet_or_turn with ⟨hsame, -⟩ | ⟨hp, rest, -, rfl⟩
  · exact hsame.symm.trans hpost
  · cases served_workerTurn e (v := { v with ready := rest }) hp with
    | preempts post reason next results => exact post
    | concludes reason next results =>
      rw [next] at hpost
      cases hpost
    | stops post next results =>
      rw [next] at hpost
      cases hpost

/-- A worker that waits for an interrupted body did so before, or watched the flight. -/
theorem Passes.preempting {cause : Cause} (h : v.Passes e v')
    (hidle : v.post = .away → v.call = .idle) (hpost : v'.post = .preempting cause) :
    v.post = .preempting cause ∨ v.post = .watching ∧ v'.around.now = v.around.now := by
  rcases h.quiet_or_turn with ⟨hsame, -⟩ | ⟨hp, rest, -, rfl⟩
  · exact .inl (hsame.symm.trans hpost)
  · cases served_workerTurn e (v := { v with ready := rest }) hp with
    | preempts post reason next results =>
      exact .inr ⟨post, now_turn e (v := { v with ready := rest }) hidle .worker⟩
    | concludes reason next results =>
      rw [next] at hpost
      cases hpost
    | stops post next results =>
      rw [next] at hpost
      cases hpost

end Lane

/-- The result of a job that is turned away. -/
def Engine.refusal (e : Engine) (i : JobInstance) (time : Nat) : Sighting :=
  ⟨time, none, .completed (e.resultAt i none time .canceled [])⟩

/-- The turn of a worker in a lane is a turn of the worker of the flight. -/
theorem Turn.eq_worker_of_item {f w : Nat} {post : Post} {t : Turn}
    (h : t.item? f w post = some .worker) : t = .worker w := by
  cases t with
  | flight g c =>
    simp only [item?] at h
    split at h <;> cases h
  | worker u =>
    simp only [item?] at h
    split at h
    · rename_i hu
      rw [hu.1]
    · cases h
  | receiver u => cases h
  | workerDone u => cases h
  | scheduler => cases h
  | errand act => cases h
  | stop => cases h

namespace Floor

variable {e : Engine} {fl fl' : Floor σ} {f : Nat} {v v' : Lane}

/-- What is seen in a move. -/
theorem moves_tells (h : fl.Numbered) (hm : e.Moves fl fl') :
    ∃ ss : List Sighting, fl'.seen = ss.reverse ++ fl.seen ∧
      fl'.around.canceled = canceledAfter fl.around.canceled (ss.map Sighting.note) ∧
      (∀ s ∈ ss, s.time = fl.now) ∧
      (∀ s ∈ ss, s.flight = none → ∀ r, s.note = .completed r →
        fl.around.canceled = true ∧ ∃ i ∈ fl.queue, r = e.resultAt i none fl.now .canceled
        []) := by
  cases hm with
  | @turn t rest ready other =>
    have hA : { fl with ready := rest }.Assigned := assigned_of_same h.assigned rfl rfl
    obtain ⟨ss, hss⟩ := tells_step e hA t
    exact ⟨ss, hss.seen, hss.canceled, hss.time, hss.refused⟩
  | round ready next =>
    refine ⟨[], ?_, ?_, by simp, by simp⟩
    · rw [(nextRound_eq_some next).2.2]
      rfl
    · rw [(nextRound_eq_some next).2.2]
      simp

/-- Flights stay what they are. -/
theorem keeps_moves (h : fl.Numbered) (hm : e.Moves fl fl') : fl.Keeps fl' := by
  intro f x hx
  have hv : fl.lane? f = some (fl.laneOf f x) := lane?_eq_some.2 ⟨x, hx, rfl⟩
  obtain ⟨v', hv', hpass⟩ := lane?_moves h hm hv
  obtain ⟨y, hy, rfl⟩ := lane?_eq_some.1 hv'
  exact ⟨y, hy, hpass.same (call_of_away hv)⟩

theorem stopped_endWorker {w : Nat} {worker : Worker σ} (get : fl.workers[w]? = some worker) :
    (Engine.endWorker w true fl).Stopped := by
  refine ⟨{ worker with duty := .done true }, List.mem_iff_getElem?.2 ⟨w, ?_⟩, rfl⟩
  show (fl.workers.modify w _)[w]? = _
  rw [List.getElem?_modify_eq, get]
  rfl

/-- A worker that does something about a flight goes on from the floor on which it is put
back. -/
theorem carries_of_lane (e : Engine) (hA : fl.Assigned) (hv : fl.lane? f = some v)
    (hp : v.post ≠ .away) :
    e.Carries v.flight.worker v.flight.job.id
        ((Engine.idled v.flight.worker fl).put f (v.tend e).1) (v.tend e).2
        (e.workerTurn v.flight.worker fl) ∧
      ∃ worker, ((Engine.idled v.flight.worker fl).put f
          (v.tend e).1).workers[v.flight.worker]? =
        some worker := by
  obtain ⟨worker, hget, hpost, -⟩ := worker_of_lane hv hp
  generalize hfl' : e.workerTurn v.flight.worker fl = fl'
  cases hfl' ▸ e.serves_workerTurn hA v.flight.worker with
  | missing get =>
    rw [hget] at get
    cases get
  | rest get done =>
    rw [busy_of_lane hv hp get] at done
    cases done
  | stop get duty =>
    rw [hget] at get
    obtain rfl := Option.some.inj get
    rw [duty] at hpost
    exact absurd hpost.symm hp
  | seek get busy off seeks =>
    rw [hget] at get
    obtain rfl := Option.some.inj get
    rw [off] at hpost
    exact absurd hpost.symm hp
  -- Only this case is possible: a worker has one flight, and it is this one.
  | @tend worker' g u _ get lane own post next =>
    obtain rfl := flight_unique hv lane hp post own
    rw [hv] at lane
    obtain rfl := Option.some.inj lane
    have htends := v.tends_tend e hp
    have hlput := lane?_put_self (Engine.lane?_idled hv rfl) (htends.fits hp)
    rw [Lane.put_eq] at hlput
    obtain ⟨worker', get', -⟩ := worker_of_lane hlput htends.post
    have hw : (v.tend e).1.flight.worker = v.flight.worker := htends.worker
    simp only [Lane.worker_heard, hw] at get'
    exact ⟨next, worker', get'⟩

/-- A worker that is stopped on its flight is stopped. -/
theorem stopped_workerTurn (hA : fl.Assigned) (hv : fl.lane? f = some v) (hp : v.post ≠ .away)
    (hsq : (v.tend e).2 = .stop) : (e.workerTurn v.flight.worker fl).Stopped := by
  obtain ⟨hcarries, worker, get⟩ := carries_of_lane e hA hv hp
  rw [hsq] at hcarries
  generalize e.workerTurn v.flight.worker fl = fl' at hcarries
  cases hcarries with
  | stop => exact stopped_endWorker get

/-- A worker leaves a flight in its turn. -/
theorem turn_of_left (h : fl.Orderly) (hm : e.Moves fl fl') (hv : fl.lane? f = some v)
    (hv' : fl'.lane? f = some v') (hp : v.post ≠ .away) (hp' : v'.post = .away) :
    ∃ rest items, fl.ready = .worker v.flight.worker :: rest ∧
      { fl with ready := rest }.lane? f = some { v with ready := items } ∧
      fl' = e.workerTurn v.flight.worker { fl with ready := rest } ∧
      v' = ({ v with ready := items } : Lane).workerTurn e := by
  cases hm with
  | @turn t rest ready other =>
    have hA : { fl with ready := rest }.Assigned := assigned_of_same h.numbered.assigned rfl rfl
    rcases lane?_pop ready hv with ⟨i, items, ht, -, hlane⟩ | ⟨ht, hlane⟩
    · rw [lane?_step_own e hlane ht] at hv'
      obtain rfl := Option.some.inj hv'
      cases i with
      | cue c =>
        have hfits : v.desk.Fits (e.cueTurn c v.desk) :=
          e.fits_cueTurn rfl rfl (call_of_away hv) c
        have hpost : (Lane.put (e.cueTurn c v.desk) { v with ready := items }).post = .away :=
          hp'
        rw [Lane.put_eq] at hpost
        exact absurd (hfits.post.1 hpost) hp
      | worker =>
        obtain rfl := Turn.eq_worker_of_item ht
        exact ⟨rest, items, ready, hlane, rfl, rfl⟩
    · -- The turn does not concern the lane, which then still has its worker.
      by_cases hstop : t = .stop
      · subst hstop
        rcases lane?_stop e hlane with hcut | hcut
        · rw [hv'] at hcut
          rw [Option.some.inj hcut] at hp'
          exact absurd hp' hp
        · rw [hv'] at hcut
          rw [Option.some.inj hcut, Lane.post_cut] at hp'
          exact absurd hp' hp
      · rw [lane?_step_other e hA hlane ht hstop] at hv'
        rw [← Option.some.inj hv', Lane.moveTo_eq] at hp'
        exact absurd hp' hp
  | round ready next =>
    rw [lane?_nextRound next hv] at hv'
    rw [← Option.some.inj hv'] at hp'
    exact absurd hp' hp

/-- **A worker leaves a flight with a result, or because it is stopped.** -/
theorem retired_moves (h : fl.Orderly) (hm : e.Moves fl fl') (hv : fl.lane? f = some v)
    (hv' : fl'.lane? f = some v') (hp : v.post ≠ .away) (hp' : v'.post = .away) :
    fl'.Stopped ∨ ∃ t r, (t, .completed r) ∈ v'.seen := by
  obtain ⟨rest, items, -, hlane, rfl, rfl⟩ := turn_of_left h hm hv hv' hp hp'
  have hA : { fl with ready := rest }.Assigned := assigned_of_same h.numbered.assigned rfl rfl
  exact (Lane.stop_or_completed e (v := { v with ready := items }) hp hp').imp_left
    (stopped_workerTurn (v := { v with ready := items }) hA hlane hp)

/-- What is in the queue stays there, is taken, or is turned away. -/
theorem queue_moves (ho : fl.Orderly) (hm : e.Moves fl fl') :
    (∀ i ∈ fl'.queue, i ∈ fl.queue) ∧
      ∀ i ∈ fl.queue, i ∈ fl'.queue ∨
        (∃ x, fl'.flights[fl.flights.length]? = some x ∧ x.job = i) ∨
        ∃ time, e.refusal i time ∈ fl'.seen := by
  cases deals_moves ho hm with
  | keep queue length =>
    rw [queue]
    exact ⟨fun _ => id, fun _ => .inl⟩
  | @take i w queue running length lane =>
    rw [queue]
    refine ⟨fun j hj => List.mem_cons_of_mem i hj, fun j hj => ?_⟩
    rcases List.mem_cons.1 hj with rfl | hj
    · obtain ⟨x, hx, hlane⟩ := lane?_eq_some.1 lane
      exact .inr (.inl ⟨x, hx, congrArg (fun v => v.flight.job) hlane⟩)
    · exact .inl hj
  | drain canceled queue length refused =>
    rw [queue]
    refine ⟨fun j hj => List.mem_append_right _ hj, fun j hj => ?_⟩
    rcases List.mem_append.1 hj with hj | hj
    · exact .inr (.inr ⟨fl.now, refused j hj⟩)
    · exact .inl hj

/-- Nothing that was seen is forgotten. -/
theorem mem_seen_moves (h : fl.Numbered) (hm : e.Moves fl fl') {s : Sighting}
    (hs : s ∈ fl.seen) :
    s ∈ fl'.seen := by
  obtain ⟨ss, hseen, -⟩ := moves_tells h hm
  rw [hseen]
  exact List.mem_append_right _ hs

end Floor

/-! ## The ledger -/

/-- Where the jobs of a schedule are. Flights below number `first` are of earlier schedules. -/
structure Ledger (e : Engine) (jobs : List JobInstance) (first : Nat) (fl : Floor σ) : Prop where
  /-- The queue holds jobs of the schedule. -/
  queue : ∀ i ∈ fl.queue, i ∈ jobs
  /-- So do the flights. -/
  flights : ∀ f x, first ≤ f → fl.flights[f]? = some x → x.job ∈ jobs
  /-- No job is lost. -/
  kept : ∀ i ∈ jobs, i ∈ fl.queue ∨ (∃ f x, first ≤ f ∧ fl.flights[f]? = some x ∧ x.job = i) ∨
    ∃ time, e.refusal i time ∈ fl.seen
  /-- Jobs that were never in flight have a result only if they were turned away. -/
  refused : ∀ s ∈ fl.seen, s.flight = none → ∀ r, s.note = .completed r →
    ∃ i ∈ jobs, r = e.resultAt i none s.time .canceled []
  /-- A worker leaves a flight with a result. -/
  left : ∀ f v, first ≤ f → fl.lane? f = some v → v.post = .away →
    fl.Stopped ∨ ∃ t r, (t, .completed r) ∈ v.seen
  earlier : first ≤ fl.flights.length

namespace Ledger

open Floor

variable {e : Engine} {jobs : List JobInstance} {first : Nat} {fl fl' : Floor σ}

/-- **Every move keeps the ledger.** -/
theorem moves (h : Ledger e jobs first fl) (ho : fl.Orderly) (hm : e.Moves fl fl') :
    Ledger e jobs first fl' := by
  have hn := ho.numbered
  have hkeeps := keeps_moves hn hm
  obtain ⟨hqueue, hdealt⟩ := queue_moves ho hm
  refine ⟨fun i hi => h.queue i (hqueue i hi), ?_, ?_, ?_, ?_,
    Nat.le_trans h.earlier (length_moves ho hm)⟩
  · intro f y hf hy
    have hlane : fl'.lane? f = some (fl'.laneOf f y) := lane?_eq_some.2 ⟨y, hy, rfl⟩
    -- A flight was there before, or its job has just left the queue.
    rcases lane?_moves_back ho hm hlane with ⟨v, hv, hpass⟩ | ⟨i, w, -, hq, -, hlaunched⟩
    · obtain ⟨x, hx, rfl⟩ := lane?_eq_some.1 hv
      have hsame := hpass.same (call_of_away hv)
      have hjob : y.job = x.job := hsame.1
      rw [hjob]
      exact h.flights f x hf hx
    · have hjob : y.job = i := congrArg (fun v => v.flight.job) hlaunched
      rw [hjob]
      exact h.queue i (by rw [hq]; exact List.mem_cons_self)
  · intro i hi
    rcases h.kept i hi with hq | ⟨f, x, hf, hx, hjob⟩ | ⟨time, hseen⟩
    · rcases hdealt i hq with hq | ⟨x, hx, hjob⟩ | hseen
      · exact .inl hq
      · exact .inr (.inl ⟨_, x, h.earlier, hx, hjob⟩)
      · exact .inr (.inr hseen)
    · obtain ⟨y, hy, hsame⟩ := hkeeps f x hx
      exact .inr (.inl ⟨f, y, hf, hy, hsame.1.trans hjob⟩)
    · exact .inr (.inr ⟨time, mem_seen_moves hn hm hseen⟩)
  · obtain ⟨ss, hseen, -, htime, hrefused⟩ := moves_tells hn hm
    intro s hs hnone r hr
    rw [hseen] at hs
    rcases List.mem_append.1 hs with hs | hs
    · have hs := List.mem_reverse.1 hs
      obtain ⟨-, i, hi, hres⟩ := hrefused s hs hnone r hr
      rw [← htime s hs] at hres
      exact ⟨i, h.queue i hi, hres⟩
    · exact h.refused s hs hnone r hr
  · intro f v' hf hv' hp'
    rcases lane?_moves_back ho hm hv' with ⟨v, hv, hpass⟩ | ⟨i, w, -, -, -, rfl⟩
    · by_cases hp : v.post = .away
      · refine (h.left f v hf hv hp).imp (fun hst => hst.moves hn hm) ?_
        rintro ⟨t, r, hmem⟩
        exact ⟨t, r, hpass.seen.mem hmem⟩
      · exact retired_moves ho hm hv hv' hp hp'
    · cases hp'

end Ledger

end Conveyor
