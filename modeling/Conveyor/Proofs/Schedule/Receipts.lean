import Conveyor.Proofs.Schedule.Roster

/-!
# One result for each job

Results come one by one. A job gets one when its worker leaves it, or when it is turned away, and
it is never both in hand or queued and provided with a result. So no job gets two, and they come
in the order of their times.

- `completedAmong`: the results among some sightings.
- `Floor.Awards`: the results that a move gives; `Floor.awards_moves` says that all moves are
  like this.
- `Floor.Receipts`: no job has two results, and no job in the queue has one.
- `Floor.Open.receipts_leads`: **so it is at every moment of a schedule**.
- `Engine.perm_completed`: **the results that came are those that the schedule returns**.
-/

namespace Conveyor

variable {σ : Type}

/-- The results among some sightings, with their times. -/
def completedAmong (ss : List Sighting) : List (Nat × JobResult) :=
  ss.filterMap fun x =>
    match x.note with
    | .completed result => some (x.time, result)
    | _ => none

theorem completedAmong_append (ss ts : List Sighting) :
    completedAmong (ss ++ ts) = completedAmong ss ++ completedAmong ts := List.filterMap_append

/-- The results of a report are those among its sightings. -/
theorem ScheduleReport.completed_eq (s : ScheduleReport) :
    s.completed = completedAmong s.sightings := rfl

/-- Who does not tell of results gives none. -/
theorem completedAmong_eq_nil {ss : List Sighting} (h : ∀ s ∈ ss, ∀ r, s.note ≠ .completed r) :
    completedAmong ss = [] := by
  refine List.filterMap_eq_nil_iff.2 fun s hs => ?_
  split
  · rename_i r hr
    exact absurd hr (h s hs r)
  · rfl

theorem mem_completedAmong {ss : List Sighting} {t : Nat} {r : JobResult} :
    (t, r) ∈ completedAmong ss ↔ ∃ f, ⟨t, f, .completed r⟩ ∈ ss :=
  ScheduleReport.mem_completed (s := ⟨[], .finished, 0, [], ss⟩)

/-- What is told of a flight gives no result if none is among the notes. -/
theorem Floor.completedAmong_told {f : Nat} {ns : List Note} {fl : Floor σ}
    (h : ∀ r, .completed r ∉ ns) : completedAmong (fl.told f ns) = [] := by
  refine completedAmong_eq_nil fun s hs r hr => ?_
  obtain ⟨n, hn, rfl⟩ := List.mem_map.1 hs
  exact h r (hr ▸ hn)

/-- Each job that is turned away has one result, and the receiver gives none. -/
theorem Engine.Clears.completedAmong {e : Engine} {w time : Nat} {gone : List JobInstance}
    {ns : List Note} (h : e.Clears w time gone ns) :
    completedAmong (ns.map fun n => ⟨time, none, n⟩) =
      (gone.map fun i => e.refusedAt i time).map fun r => (time, r) := by
  induction h with
  | nothing => rfl
  | deed d next ih =>
    rw [List.map_cons, ← ih]
    cases d <;> rfl
  | answered jobId next ih =>
    rw [List.map_cons, ← ih]
    rfl
  | refused i next ih =>
    rw [List.map_cons, List.map_cons, List.map_cons, List.map_cons, ← ih]
    rfl

/-! ## Moves -/

namespace Floor

/-- The results that a move gives: that of a job which its worker leaves, and those of the jobs
that are turned away, which are the first in the queue. -/
structure Awards (e : Engine) (fl fl' : Floor σ) (own refused : List JobResult) : Prop where
  completed : completedAmong fl'.sightings =
    completedAmong fl.sightings ++ (own ++ refused).map fun r => (fl.now, r)
  own : own = [] ∨ ∃ f v r, fl.lane? f = some v ∧ v.post ≠ .away ∧ own = [r] ∧
    r.jobId = v.flight.job.id
  refused : refused = [] ∨ ∃ gone, fl.queue = gone ++ fl'.queue ∧
    refused = gone.map fun i => e.refusedAt i fl.now

variable {e : Engine} {fl fl' m : Floor σ} {f w first taken : Nat} {v : Lane}
    {jobs : List JobInstance}

theorem awards_nothing (h : fl'.seen = fl.seen) : fl.Awards e fl' [] [] := by
  refine ⟨?_, .inl rfl, .inl rfl⟩
  simp [sightings, h]

/-- A worker that looks for a job gives the results of those that it turns away. -/
theorem awards_sought (h : e.Sought w fl fl') : ∃ refused, fl.Awards e fl' [] refused := by
  cases h with
  | @nothing gone ns passes seen flights around =>
    refine ⟨_, ?_, .inl rfl, .inr ⟨gone, passes.queue, rfl⟩⟩
    rw [List.nil_append, ← passes.clears.completedAmong, ← completedAmong_append,
      sightings, seen]
    simp [sightings]
  | @job i rest ns m passes running launched =>
    refine ⟨[], ?_, .inl rfl, .inl rfl⟩
    have hseen : fl'.sightings = fl.sightings ++ (ns.map (fun n => ⟨fl.now, none, n⟩) ++
        [⟨fl.now, some fl.flights.length, .log .debug (Engine.pickUpMessage w i)⟩]) := by
      rw [launched, launch_eq]
      simp [sightings, now, cleared, see]
    rw [hseen, completedAmong_append, completedAmong_append, passes.clears.completedAmong]
    rfl

theorem awards_carries {jobId : Text} {sq : Sequel} (h : e.Carries w jobId fl sq fl') :
    ∃ refused, fl.Awards e fl' [] refused := by
  cases h with
  | stay => exact ⟨[], awards_nothing rfl⟩
  | stop => exact ⟨[], awards_nothing rfl⟩
  | free seeks => exact awards_sought seeks.sought

/-- What a worker gives in its turn on a flight. -/
theorem completedAmong_tend (e : Engine) (fl : Floor σ) (f : Nat) (hp : v.post ≠ .away) :
    ∃ own : List JobResult,
      completedAmong (fl.told f (v.tend e).1.notes) = own.map (fun r => (fl.now, r)) ∧
        (own = [] ∨ ∃ r, own = [r] ∧ r.jobId = v.flight.job.id) := by
  have htended := v.tended_tend e hp
  generalize (v.tend e).2 = sq at htended
  cases htended with
  | preempts post reason desk =>
    exact ⟨[], completedAmong_told (Lane.not_mem_logs desk.logged.1), .inl rfl⟩
  | stops post watch notes orders =>
    exact ⟨[], completedAmong_told (Lane.not_mem_logs notes), .inl rfl⟩
  | @concludes status ms uncut reason watch logs notes orders =>
    refine ⟨[e.resultAt v.flight.job (some v.flight.takenAt) v.around.now status v.flight.steps],
        ?_,
      .inr ⟨_, rfl, rfl⟩⟩
    have htold : fl.told f (v.tend e).1.notes =
        fl.told f ms ++ fl.told f (e.verdictNotes v.flight v.around.now status) := by
      rw [notes]
      exact List.map_append
    rw [htold, completedAmong_append, completedAmong_told (Lane.not_mem_logs logs)]
    rfl

theorem awards_workerTurn (e : Engine) (hA : fl.Assigned) (w : Nat) :
    ∃ own refused, fl.Awards e (e.workerTurn w fl) own refused := by
  generalize hfl' : e.workerTurn w fl = fl'
  cases hfl' ▸ e.serves_workerTurn hA w with
  | missing get => exact ⟨[], [], awards_nothing rfl⟩
  | rest get done => exact ⟨[], [], awards_nothing rfl⟩
  | stop get duty => exact ⟨[], [], awards_nothing rfl⟩
  | seek get busy off seeks =>
    obtain ⟨refused, h⟩ := awards_sought seeks.sought
    exact ⟨[], refused, h.completed, .inl rfl, h.refused⟩
  | @tend worker f v _ get lane own post next =>
    have hfits := (v.tends_tend e post).fits post
    have hlane := Engine.lane?_idled lane own
    have hput := putBack f (v.tend e).1 (Engine.idled w fl)
    have hshows := shows_put hlane hfits
    obtain ⟨refused, h⟩ := awards_carries next
    obtain ⟨given, hgiven, hown⟩ := completedAmong_tend e fl f post
    have hput_seen : completedAmong ((Engine.idled w fl).put f (v.tend e).1).sightings =
        completedAmong fl.sightings ++ given.map fun r => (fl.now, r) := by
      rw [← hgiven, ← completedAmong_append]
      simp only [sightings, hshows.seen, List.reverse_append, List.reverse_reverse]
      rfl
    have hnow : ((Engine.idled w fl).put f (v.tend e).1).now = fl.now := hshows.now
    have hqueue : ((Engine.idled w fl).put f (v.tend e).1).queue = fl.queue := hput.queue
    -- First the result of its job, then those of the jobs that are turned away.
    refine ⟨given, refused, ?_, ?_, ?_⟩
    · rw [h.completed, hput_seen, hnow, List.nil_append, List.append_assoc, ← List.map_append]
    · obtain hnone | ⟨r, hr, hid⟩ := hown
      · exact .inl hnone
      · exact .inr ⟨f, v, r, lane, post, hr, hid⟩
    · obtain hnone | ⟨gone, hgone, hrefused⟩ := h.refused
      · exact .inl hnone
      · exact .inr ⟨gone, hqueue ▸ hgone, by rw [hrefused, hnow]⟩

/-- Who does not tell of results gives none. -/
theorem awards_quiet {ss : List Sighting} (hseen : fl'.sightings = fl.sightings ++ ss)
    (h : ∀ s ∈ ss, ∀ r, s.note ≠ .completed r) : fl.Awards e fl' [] [] := by
  refine ⟨?_, .inl rfl, .inl rfl⟩
  rw [hseen, completedAmong_append, completedAmong_eq_nil h]
  rfl

theorem awards_step (e : Engine) (hA : fl.Assigned) (t : Turn) :
    ∃ own refused, fl.Awards e (e.step t fl) own refused := by
  have hsteps := steps_step e t fl
  generalize e.step t fl = fl' at hsteps
  cases hsteps with
  | @desk f v c lane =>
    have hunfolds := unfolds_put lane
      (e.fits_cueTurn (d := v.desk) rfl rfl (call_of_away lane) c)
    refine ⟨[], [], awards_quiet hunfolds.sightings fun s hs r hr => ?_⟩
    rw [Option.toList_none, List.append_nil] at hs
    obtain ⟨n, hn, rfl⟩ := List.mem_map.1 hs
    exact (e.stays_cueTurn (d := v.desk) rfl rfl c).2.1 r (hr ▸ hn)
  | worker w => exact awards_workerTurn e hA w
  | errand act g ts =>
    let told : List Sighting := (act.proceed fl.around).notes.map fun n => ⟨fl.now, none, n⟩
    have hquiet : ∀ s ∈ told, ∀ r, s.note ≠ .completed r := by
      intro s hs r hr
      obtain ⟨n, hn, rfl⟩ := List.mem_map.1 hs
      have hout := act.outside_proceed fl.around n hn
      rw [show n = .completed r from hr] at hout
      cases hout
    exact ⟨[], [], awards_quiet (by simp [sightings, told]) hquiet⟩
  | _ => exact ⟨[], [], awards_nothing rfl⟩

/-- **The results that a move gives.** -/
theorem awards_moves (h : fl.Numbered) (hm : e.Moves fl fl') :
    ∃ own refused, fl.Awards e fl' own refused := by
  cases hm with
  | @turn t rest ready other =>
    have hA : { fl with ready := rest }.Assigned := assigned_of_same h.assigned rfl rfl
    obtain ⟨own, refused, ha⟩ := awards_step e hA t
    refine ⟨own, refused, ha.completed, ha.own.imp id ?_, ha.refused⟩
    rintro ⟨f, v, r, hv, hrest⟩
    obtain ⟨x, hx, rfl⟩ := lane?_eq_some.1 hv
    exact ⟨f, fl.laneOf f x, r, lane?_eq_some.2 ⟨x, hx, rfl⟩, hrest⟩
  | round ready next =>
    refine ⟨[], [], awards_nothing ?_⟩
    rw [(nextRound_eq_some next).2.2]

/-! ## The invariant -/

/-- The ids of the jobs that have a result. -/
def settledIds (fl : Floor σ) : List Text :=
  (completedAmong fl.sightings).map fun c => c.2.jobId

/-- No job has two results, no job in the queue has one, and the results came in the order of
their times. -/
structure Receipts (fl : Floor σ) : Prop where
  once : fl.settledIds.Nodup
  queued : ∀ i ∈ fl.queue, i.id ∉ fl.settledIds
  ordered : ((completedAmong fl.sightings).map Prod.fst).Pairwise (· ≤ ·)
  past : ∀ c ∈ completedAmong fl.sightings, c.1 ≤ fl.now

/-- The place of a job that has a result: it was in flight and its worker has left it, or it was
turned away. -/
theorem Dealt.settled (h : m.Dealt e jobs first taken) (hu : m.Underway e jobs first)
    {id : Text}
    (hid : id ∈ m.settledIds) : ∃ k i, jobs[k]? = some i ∧ i.id = id ∧
      (k < taken → ∀ v, m.lane? (first + k) = some v → v.post = .away) := by
  obtain ⟨⟨t, r⟩, hr, rfl⟩ := List.mem_map.1 hid
  obtain ⟨flight, hmem⟩ := mem_completedAmong.1 hr
  have hseen : ⟨t, flight, .completed r⟩ ∈ m.seen := List.mem_reverse.1 hmem
  cases flight with
  | none =>
    obtain ⟨k, i, hk, hi, rfl⟩ := h.of_turnedAway hseen
    exact ⟨k, i, hi, rfl, fun hlt => absurd hlt (Nat.not_lt.2 hk)⟩
  | some f =>
    obtain ⟨k, v, rfl, -, hv, hr, hi, hid⟩ := h.of_flown hu hseen
    refine ⟨k, v.flight.job, hi, hid.symm, fun _ u hu' => ?_⟩
    obtain rfl := Option.some.inj (hv.symm.trans hu')
    by_contra hpost
    exact ((hu.lanes _ v hv).judged (Nat.le_add_right _ _)).pending hpost r
      (List.mem_map.2 ⟨_, hr, rfl⟩)

/-- A job in hand has no result. -/
theorem Dealt.not_settled (h : m.Dealt e jobs first taken) (hu : m.Underway e jobs first)
    (hids : (jobs.map JobInstance.id).Nodup) (hv : m.lane? f = some v) (hp : v.post ≠ .away) :
    v.flight.job.id ∉ m.settledIds ∧ ∀ i ∈ m.queue, i.id ≠ v.flight.job.id := by
  have hf : first ≤ f := Nat.le_of_not_lt fun hlt => hp ((hu.lanes f v hv).old hlt).1
  obtain ⟨k, rfl⟩ := Nat.exists_eq_add_of_le hf
  obtain ⟨hk, hi⟩ := h.job_of_lane hv
  constructor
  · intro hid
    obtain ⟨j, i', hi', hsame, haway⟩ := h.settled hu hid
    obtain rfl := index_unique hids hi hi' hsame
    exact hp (haway hk v hv)
  · intro i' hi' hsame
    obtain ⟨j, hj, hi'⟩ := mem_drop_iff.1 (h.mem_drop hi')
    obtain rfl := index_unique hids hi hi' hsame
    exact absurd hk (Nat.not_lt.2 hj)

/-- The jobs in the queue have different ids. -/
theorem Dealt.nodup_queue (h : m.Dealt e jobs first taken)
    (hids : (jobs.map JobInstance.id).Nodup) :
    (m.queue.map JobInstance.id).Nodup := by
  obtain ⟨gone, hdrop, -⟩ := h.queue
  have hsub : m.queue.Sublist jobs := by
    refine List.Sublist.trans ?_ (List.drop_sublist taken jobs)
    rw [hdrop]
    exact List.sublist_append_right gone m.queue
  exact hids.sublist (hsub.map _)

theorem map_jobId_refused (e : Engine) (time : Nat) (gone : List JobInstance) :
    (gone.map fun i => e.refusedAt i time).map JobResult.jobId = gone.map JobInstance.id := by
  rw [List.map_map]
  rfl

/-- The ids that get a result in a move: that of a job that was in hand, and those of the first
jobs in the queue if they are turned away. -/
structure Awards.Ids (fl fl' : Floor σ) (own refused : List JobResult) : Prop where
  own : ∀ id ∈ own.map JobResult.jobId, own.map JobResult.jobId = [id] ∧ id ∉ fl.settledIds ∧
    ∀ i ∈ fl.queue, i.id ≠ id
  refused : refused.map JobResult.jobId = [] ∨ ∃ gone, fl.queue = gone ++ fl'.queue ∧
    refused.map JobResult.jobId = gone.map JobInstance.id

theorem Awards.ids {own refused : List JobResult} (ha : fl.Awards e fl' own refused)
    (hd : fl.Dealt e jobs first taken) (hu : fl.Underway e jobs first)
    (hids : (jobs.map JobInstance.id).Nodup) : Awards.Ids fl fl' own refused := by
  refine ⟨fun id hid => ?_, ?_⟩
  · rcases ha.own with rfl | ⟨f, v, r, hv, hp, rfl, hjob⟩
    · cases hid
    · rw [List.map_singleton, List.mem_singleton] at hid
      subst hid
      obtain ⟨hsettled, hqueue⟩ := hd.not_settled hu hids hv hp
      rw [← hjob] at hsettled hqueue
      exact ⟨rfl, hsettled, hqueue⟩
  · refine ha.refused.imp (fun hnil => by rw [hnil]; rfl) fun ⟨gone, hgone, hall⟩ =>
      ⟨gone, hgone, ?_⟩
    rw [hall, map_jobId_refused]

/-- Those that are turned away were queued. -/
theorem Awards.Ids.queued {own refused : List JobResult} (h : Awards.Ids fl fl' own refused)
    {id : Text}
    (hid : id ∈ refused.map JobResult.jobId) : ∃ i ∈ fl.queue, i.id = id := by
  rcases h.refused with hnil | ⟨gone, hgone, hall⟩
  · rw [hnil] at hid
    cases hid
  · rw [hall] at hid
    obtain ⟨i, hi, hsame⟩ := List.mem_map.1 hid
    exact ⟨i, by rw [hgone]; exact List.mem_append_left _ hi, hsame⟩

theorem settledIds_awards {own refused : List JobResult} (ha : fl.Awards e fl' own refused) :
    fl'.settledIds =
      fl.settledIds ++ (own.map JobResult.jobId ++ refused.map JobResult.jobId) := by
  unfold settledIds
  rw [ha.completed]
  simp [Function.comp_def]

/-- The ids that get a result in a move have none before, and are different. -/
theorem Receipts.nodup_awards (h : fl.Receipts) {own refused : List JobResult}
    (hi : Awards.Ids fl fl' own refused) (hqueue : (fl.queue.map JobInstance.id).Nodup) :
    (fl.settledIds ++ (own.map JobResult.jobId ++ refused.map JobResult.jobId)).Nodup := by
  rw [List.nodup_append, List.nodup_append]
  refine ⟨h.once, ⟨?_, ?_, ?_⟩, ?_⟩
  · cases hlist : own.map JobResult.jobId with
    | nil => exact List.nodup_nil
    | cons id rest =>
      rw [← hlist, (hi.own id (by rw [hlist]; exact List.mem_cons_self)).1]
      exact List.nodup_singleton id
  · rcases hi.refused with hnil | ⟨gone, hgone, hall⟩
    · rw [hnil]
      exact List.nodup_nil
    · rw [hgone, List.map_append] at hqueue
      rw [hall]
      exact (List.nodup_append.1 hqueue).1
  -- The worker gives the result of a flight, and the jobs that are turned away are still in the
  -- queue.
  · rintro id hid id' hid' rfl
    obtain ⟨i, hqueued, hsame⟩ := hi.queued hid'
    exact (hi.own id hid).2.2 i hqueued hsame
  · rintro id hid id' hid' rfl
    rcases List.mem_append.1 hid' with hown | hrefused
    · exact (hi.own id hown).2.1 hid
    · obtain ⟨i, hqueued, rfl⟩ := hi.queued hrefused
      exact h.queued i hqueued hid

/-- **Moves give no job a second result.** -/
theorem Receipts.moves (h : fl.Receipts) (hd : fl.Dealt e jobs first taken)
    (hu : fl.Underway e jobs first) (hids : (jobs.map JobInstance.id).Nodup)
    (hm : e.Moves fl fl') :
    fl'.Receipts := by
  have hn := hu.orderly.numbered
  obtain ⟨own, refused, ha⟩ := awards_moves hn hm
  have hi := ha.ids hd hu hids
  have hnow := now_le_moves hn hm
  have hqueue := (queue_moves hu.orderly hm).1
  refine ⟨?_, ?_, ?_, ?_⟩
  · rw [settledIds_awards ha]
    exact h.nodup_awards hi (hd.nodup_queue hids)
  · intro i hleft hid
    rw [settledIds_awards ha] at hid
    rcases List.mem_append.1 hid with hid | hid
    · exact h.queued i (hqueue i hleft) hid
    · rcases List.mem_append.1 hid with hid | hid
      · exact (hi.own _ hid).2.2 i (hqueue i hleft) rfl
      · -- Whoever is turned away is not queued any more, and no two jobs in the queue have the
        -- same id.
        rcases hi.refused with hnil | ⟨gone, hgone, hall⟩
        · rw [hnil] at hid
          cases hid
        · have hnodup := hd.nodup_queue hids
          rw [hgone, List.map_append, List.nodup_append] at hnodup
          rw [hall] at hid
          exact hnodup.2.2 i.id hid i.id (List.mem_map_of_mem hleft) rfl
  · rw [ha.completed, List.map_append, List.pairwise_append]
    refine ⟨h.ordered, ?_, ?_⟩
    · rw [List.map_map]
      exact List.pairwise_map.2 (List.pairwise_of_forall fun _ _ => Nat.le_refl _)
    · intro t ht t' ht'
      obtain ⟨c, hc, rfl⟩ := List.mem_map.1 ht
      rw [List.map_map] at ht'
      obtain ⟨r, -, rfl⟩ := List.mem_map.1 ht'
      exact h.past c hc
  · intro c hc
    rw [ha.completed] at hc
    rcases List.mem_append.1 hc with hc | hc
    · exact Nat.le_trans (h.past c hc) hnow
    · obtain ⟨r, -, rfl⟩ := List.mem_map.1 hc
      exact hnow

theorem Open.receipts_staff (h : fl.Open e) (jobs : List JobInstance) :
    (e.staff jobs fl).Receipts := by
  have hnone : completedAmong (e.staff jobs fl).sightings = [] := by
    refine completedAmong_eq_nil fun s hs r hr => ?_
    have hout := (h.seen s (List.mem_reverse.1 hs)).2
    rw [hr] at hout
    cases hout
  refine ⟨?_, ?_, ?_, ?_⟩ <;> simp [settledIds, hnone]

/-- **At no moment of a schedule has a job two results.** -/
theorem Open.receipts_leads (h : fl.Open e) (hids : (jobs.map JobInstance.id).Nodup)
    (hl : e.Leads (e.staff jobs fl) m) : m.Receipts := by
  have hrun := hl.keeps
    (P := fun m => m.Underway e jobs fl.flights.length ∧
      (∃ taken, m.Dealt e jobs fl.flights.length taken) ∧ m.Receipts) ?_
    ⟨h.underway_staff jobs, ⟨0, h.dealt_staff jobs⟩, h.receipts_staff jobs⟩
  · exact hrun.2.2
  · rintro m m' ⟨hu, ⟨taken, hd⟩, hr⟩ hm
    exact ⟨hu.moves hm, hd.moves hu hm, hr.moves hd hu hids hm⟩

end Floor

namespace Engine

variable {e : Engine} {fl fl' : Floor σ} {jobs : List JobInstance} {s : ScheduleReport}
  {results : List JobResult}

/-- The results of a schedule that is over came in the order of their times, and no job has
two. -/
theorem completed_once (ho : e.Opens fl) (hids : (jobs.map JobInstance.id).Nodup)
    (hrun : e.reportSchedule jobs fl = some (s, fl')) :
    ((s.completed.map Prod.snd).map JobResult.jobId).Nodup ∧
      (s.completed.map Prod.fst).Pairwise (· ≤ ·) ∧
      ∀ r ∈ s.completed.map Prod.snd, ∃ i ∈ jobs, s.Settles e i r := by
  obtain ⟨m, hlead, rfl, -⟩ := ho.isOpen.exists_end hrun
  have hreceipts := ho.isOpen.receipts_leads hids hlead
  refine ⟨?_, ?_, fun r hr => ?_⟩
  · rw [ScheduleReport.completed_eq, List.map_map]
    exact hreceipts.once
  · rw [ScheduleReport.completed_eq]
    exact hreceipts.ordered
  · obtain ⟨⟨t, r⟩, hmem, rfl⟩ := List.mem_map.1 hr
    exact ((ho.isOpen.underway_staff jobs).leads hlead).settles hmem

/-- The results of a schedule are those of its jobs, in order. -/
theorem map_jobId_results (ho : e.Opens fl) (hids : (jobs.map JobInstance.id).Nodup)
    (hrun : e.reportSchedule jobs fl = some (s, fl')) (hres : s.results = some results) :
    results.map JobResult.jobId = jobs.map JobInstance.id := by
  have hsettles := settles_results ho hids hrun hres
  clear hids hrun hres
  induction hsettles with
  | nil => rfl
  | cons hfirst _ ih => rw [List.map_cons, List.map_cons, ih, hfirst.jobId]

/-- **The results that came are those that a finished schedule returns.** -/
theorem perm_completed (ho : e.Opens fl) (hids : (jobs.map JobInstance.id).Nodup)
    (hrun : e.reportSchedule jobs fl = some (s, fl')) (hres : s.results = some results) :
    (s.completed.map Prod.snd).Perm results := by
  obtain ⟨honce, -, hjobs⟩ := completed_once ho hids hrun
  have hresults := map_jobId_results ho hids hrun hres
  have hfor : results = jobs.filterMap fun i => s.resultFor i.id := by
    obtain ⟨m, -, rfl, -⟩ := ho.isOpen.exists_end hrun
    exact (ScheduleReport.results_eq_some.1 hres).2.symm
  refine (List.perm_ext_iff_of_nodup (.of_map _ honce) (.of_map _ (hresults ▸ hids))).2 fun r =>
    ?_
  constructor
  · intro hr
    obtain ⟨⟨t, r⟩, hmem, rfl⟩ := List.mem_map.1 hr
    obtain ⟨i, hi, hsettles⟩ := hjobs r hr
    -- The result that is kept for the job is the only one that came for it.
    obtain ⟨r', hr'⟩ := ScheduleReport.exists_resultFor hmem
    obtain ⟨t', hmem', hid'⟩ := ScheduleReport.resultFor_eq_some hr'
    have hsame : r' = r :=
      List.inj_on_of_nodup_map honce (List.mem_map.2 ⟨_, hmem', rfl⟩) hr hid'
    rw [hfor]
    refine List.mem_filterMap.2 ⟨i, hi, ?_⟩
    rw [← hsettles.jobId, hr', hsame]
  · intro hr
    rw [hfor] at hr
    obtain ⟨i, -, hr⟩ := List.mem_filterMap.1 hr
    obtain ⟨t, hmem, -⟩ := ScheduleReport.resultFor_eq_some hr
    exact List.mem_map.2 ⟨_, hmem, rfl⟩

end Engine

end Conveyor
