import Conveyor.Proofs.Calendar.Order
import Conveyor.Proofs.Store.Refusal

/-!
# Listing runs

Runs are listed by the texts of the times at which they started, those that started last first.
That is the order of the times themselves, whatever calls were made before, refused ones among
them.

- `Tables.Touch`: all that a call can do to the tables; `Store.perform_cases`, one case for each
  call.
- `Tables.Orderly`: the jobs of each run stand in the order in which they were recorded;
  `Tables.Touch.orderly`, `Store.Has.inTurn`: that is so after any calls.
- `Tables.recorded`, `RunRecord.withoutSteps`: what is listed of a run.
- `Tables.newestFirst_listed`: **rows sorted by the texts of their times are sorted by their
  times**.
- `Store.lists_newest_first`: **each recorded run is listed once, those that started last
  first**.
- `Store.limit_refused`: a limit that does not fit into 64 bits is refused.
-/

namespace Conveyor

/-! ## What calls do to tables -/

namespace Tables

variable {t t' : Tables}

/-- What a call can do to the tables: recording a job may end after a part of it. -/
inductive Touch (t : Tables) : Store.Call → Tables → Prop
  | runAdded {c : Store.Call} {row : RunRow} (id : c.Declared → ∃ id, row.id = .text id) :
    Touch t c { t with runs := t.runs ++ [row] }
  | runEnded {c : Store.Call} (row : RunRow) :
    Touch t c { t with runs := t.runs.map (finish row) }
  | runDeleted {c : Store.Call} (id : Cell) : Touch t c (t.deleteRun id)
  | jobForgotten {c : Store.Call} (runId jobId : Cell) : Touch t c (t.deleteJob runId jobId)
  | jobRecorded {c : Store.Call} {runId : String} {row : JobRow} (jobId : Cell)
      (steps : List StepRow)
    (run : row.runId = .text runId) (position : row.position = t.nextPosition (.text runId)) :
    Touch t c
      { t.deleteJob (.text runId) jobId with
        jobs := (t.deleteJob (.text runId) jobId).jobs ++ [row]
        steps := steps }

/-- The jobs of each run stand in the order of their positions. -/
def Orderly (t : Tables) : Prop := t.jobs.Pairwise fun a b => a.runId = b.runId →
    a.position < b.position

/-- Each run has an id. -/
def Named (t : Tables) : Prop := ∀ r ∈ t.runs, ∃ id, r.id = .text id

theorem Touch.orderly {c : Store.Call} (h : t.Touch c t') (ht : t.Orderly) : t'.Orderly := by
  cases h with
  | runAdded id => exact ht
  | runEnded row => exact ht
  | runDeleted id => exact ht.filter _
  | jobForgotten runId jobId => exact ht.filter _
  | @jobRecorded runId row jobId steps run position =>
    refine List.pairwise_append.2 ⟨ht.filter _, List.pairwise_singleton _ row, ?_⟩
    intro a ha b hb hsame
    obtain rfl := List.mem_singleton.1 hb
    rw [position]
    exact position_lt_nextPosition (List.mem_filter.1 ha).1 (hsame.trans run)

theorem Touch.named {c : Store.Call} (h : t.Touch c t') (hc : c.Declared) (ht : t.Named) :
    t'.Named := by
  cases h with
  | runAdded id =>
    intro r hr
    rcases List.mem_append.1 hr with hr | hr
    · exact ht r hr
    · obtain rfl := List.mem_singleton.1 hr
      exact id hc
  | runEnded row =>
    intro r hr
    obtain ⟨o, ho, rfl⟩ := List.mem_map.1 hr
    rw [id_finish]
    exact ht o ho
  | runDeleted id => exact fun r hr => ht r (List.mem_filter.1 hr).1
  | jobForgotten runId jobId => exact ht
  | jobRecorded jobId steps run position => exact ht

end Tables

namespace Store

variable {s s' : Store} {t t' : Tables} {runId : Text}

section

variable {α β : Type} {a : StoreStep α} {k : α → StoreStep β} {y : β}
  {f : Tables → Except StoreFault Tables}

/-- Two changes are made one after the other. -/
theorem andThen_eq_ok (h : andThen a k s = (.ok y, s')) :
    ∃ x m, a s = (.ok x, m) ∧ k x m = (.ok y, s') := by
  rcases ha : a s with ⟨fault | x, m⟩
  · rw [andThen_of_error ha] at h
    cases (Prod.mk.inj h).1
  · rw [andThen_of_ok ha] at h
    exact ⟨x, m, rfl, h⟩

/-- A call of one statement changes the tables and commits, or does nothing. -/
theorem committing_cases (name : String) {o : Option Tables}
    (hs' : (andThen (change name f) (fun _ => committing) ⟨o, some t⟩).2 = s') :
    s' = ⟨o, some t⟩ ∨ ∃ t', f t = .ok t' ∧ s' = ⟨some t', some t'⟩ := by
  rcases hcall : andThen (change name f) (fun _ => committing) ⟨o, some t⟩ with ⟨fault | u, m⟩
  · rw [hcall] at hs'
    subst hs'
    exact .inl (committing_eq_error hcall)
  · rw [hcall] at hs'
    subst hs'
    obtain ⟨x, m', hchange, hcommit⟩ := andThen_eq_ok hcall
    obtain ⟨t₀, t', hseen, hf, rfl⟩ := change_eq_ok hchange
    obtain rfl := Option.some.inj hseen
    exact .inr ⟨t', hf, (Prod.mk.inj hcommit).2.symm⟩

end

/-- A run is inserted after the others. -/
theorem insertRun_eq_ok {row : RunRow} (h : t.insertRun row = .ok t') :
    t' = { t with runs := t.runs ++ [row] } := by
  unfold Tables.insertRun at h
  split at h
  · cases h
  · split at h
    · cases h
    · exact (Except.ok.inj h).symm

/-- A run that is over is inserted after the others, or has ended. -/
theorem upsertRun_eq_ok {row : RunRow} (h : t.upsertRun row = .ok t') :
    t' = { t with runs := t.runs ++ [row] } ∨
    t' = { t with runs := t.runs.map (Tables.finish row) } := by
  unfold Tables.upsertRun at h
  split at h
  · cases h
  · split at h
    · exact .inr (Except.ok.inj h).symm
    · exact .inl (Except.ok.inj h).symm

/-- The row of a job has its run and its position. -/
theorem jobRow_eq_ok {j : JobRecord} {position : Int} {row : JobRow}
    (h : jobRow runId position j = .ok row) :
    Cell.ofText runId = .ok row.runId ∧ row.position = position := by
  obtain ⟨run, hrun, h⟩ := bind_eq_ok h
  obtain ⟨cells, -, h⟩ := bind_eq_ok h
  split at h
  · cases h
    exact ⟨hrun, rfl⟩
  · cases h

/-- Steps are inserted after the others. -/
theorem insertSteps_eq_ok {jobId : Value} {steps : List StepRecord} {u : Unit}
    (hseen : s.seen = some t)
    (h : insertSteps runId jobId steps s = (.ok u, s')) :
    ∃ rows, s' = { s with seen := some { t with steps := rows } } := by
  induction steps generalizing s t with
  | nil =>
    obtain rfl := (Prod.mk.inj h).2
    exact ⟨t.steps, by rw [← hseen]⟩
  | cons step steps ih =>
    rw [insertSteps] at h
    obtain ⟨x, m, hchange, h⟩ := andThen_eq_ok h
    obtain ⟨t₀, t', hseen₀, hf, rfl⟩ := change_eq_ok hchange
    obtain rfl := Option.some.inj (hseen₀.symm.trans hseen)
    obtain ⟨row, -, hins⟩ := bind_eq_ok hf
    obtain rfl := insertStep_eq_ok hins
    have hrest := ih rfl h
    exact hrest

/-- What recording a job does, if it succeeds. -/
theorem recordJob_eq_ok {j : JobRecord} {u : Unit} {o : Option Tables}
    (h : recordJob runId j ⟨o, some t⟩ = (.ok u, s')) :
    ∃ t', t.Touch (.recordJob runId j) t' ∧ s' = ⟨some t', some t'⟩ := by
  unfold recordJob at h
  obtain ⟨p, m, hposition, h⟩ := andThen_eq_ok h
  obtain ⟨hp, rfl⟩ := Prod.mk.inj hposition
  obtain ⟨run, hrunId, rfl⟩ := exists_of_map_eq_ok hp
  obtain ⟨_, m, hforget, h⟩ := andThen_eq_ok h
  obtain ⟨t₀, t₁, hseen, hf, rfl⟩ := change_eq_ok hforget
  obtain rfl := Option.some.inj hseen
  obtain ⟨run', hrunId', hf⟩ := bind_eq_ok hf
  obtain rfl : run = run' := Except.ok.inj (hrunId.symm.trans hrunId')
  obtain ⟨id, -, hdelete⟩ := bind_eq_ok hf
  obtain rfl := Except.ok.inj hdelete
  obtain ⟨_, m, hinsert, h⟩ := andThen_eq_ok h
  obtain ⟨t₁, t₂, hseen, hf, rfl⟩ := change_eq_ok hinsert
  obtain rfl := Option.some.inj hseen
  obtain ⟨row, hrow, hins⟩ := bind_eq_ok hf
  obtain rfl := insertJob_eq_ok hins
  obtain ⟨hrun, hpos⟩ := jobRow_eq_ok hrow
  obtain ⟨id', -, rfl⟩ := Cell.ofText_eq_ok hrunId
  obtain ⟨_, m, hsteps, h⟩ := andThen_eq_ok h
  obtain ⟨rows, rfl⟩ := insertSteps_eq_ok rfl hsteps
  exact ⟨_, .jobRecorded id.asText rows (Except.ok.inj (hrun.symm.trans hrunId)) hpos,
    (Prod.mk.inj h).2.symm⟩

/-- What is left of a refused recording of a job. -/
theorem touch_of_remnant {j : JobRecord} {o : Option Tables}
    (h : Remnant runId j ⟨o, some t⟩ s') :
    s' = ⟨o, some t⟩ ∨ ∃ t', t.Touch (.recordJob runId j) t' ∧ s' = ⟨o, some t'⟩ := by
  cases h with
  | unchanged => exact .inl rfl
  | forgotten seen run jobId =>
    obtain rfl := Option.some.inj seen
    exact .inr ⟨_, .jobForgotten _ _, rfl⟩
  | begun seen run jobId job steps left made =>
    obtain rfl := Option.some.inj seen
    obtain ⟨hrun, hpos⟩ := jobRow_eq_ok job
    obtain ⟨id, -, rfl⟩ := Cell.ofText_eq_ok run
    exact .inr ⟨_, .jobRecorded _ _ (Except.ok.inj (hrun.symm.trans run)) hpos, rfl⟩

/-- The row of a run has its id. -/
theorem id_runRow {run : RunRecord} {row : RunRow} (hd : run.Declared)
    (h : runRow run = .ok row) : ∃ id, row.id = .text id := by
  obtain ⟨t, ht⟩ := hd.runId
  obtain ⟨cells, hcells, h⟩ := bind_eq_ok h
  rw [ht] at hcells
  obtain ⟨id, hid, hcells⟩ := bind_eq_ok hcells
  obtain ⟨id, -, rfl⟩ := Cell.ofText_eq_ok hid
  obtain ⟨rest, -, hcells⟩ := bind_eq_ok hcells
  obtain rfl := Except.ok.inj hcells
  split at h
  · next heq =>
    cases heq
    cases h
    exact ⟨id, rfl⟩
  · cases h

/-- **All that a call can do**: it leaves the store, goes back to what is committed, or touches
the tables, and then it commits unless it was refused. -/
theorem perform_cases (c : Call) (o t : Tables) :
    (perform c ⟨some o, some t⟩).2 = ⟨some o, some t⟩ ∨ (perform c ⟨some o, some t⟩).2 =
    ⟨some o, some o⟩ ∨
      ∃ t', t.Touch c t' ∧ ((perform c ⟨some o, some t⟩).2 = ⟨some o, some t'⟩ ∨
        (perform c ⟨some o, some t⟩).2 = ⟨some t', some t'⟩) := by
  cases c with
  | createRun runId branch startedAt =>
    rcases committing_cases "runs" (t := t) (o := some o)
      (f := fun tables => do
        let id ← Cell.ofText runId
        let branch ← (branch.map Cell.ofText).getD (.ok .null)
        tables.insertRun ⟨id, .text "running", branch, .text startedAt.text, .null⟩) rfl with
      h | ⟨t', hf, h⟩
    · exact .inl h
    · obtain ⟨id, hid, hf⟩ := bind_eq_ok hf
      obtain ⟨_, -, hf⟩ := bind_eq_ok hf
      obtain rfl := insertRun_eq_ok hf
      obtain ⟨id, -, rfl⟩ := Cell.ofText_eq_ok hid
      exact .inr (.inr ⟨_, .runAdded fun _ => ⟨id, rfl⟩, .inr h⟩)
  | recordJob runId job =>
    rcases hcall : recordJob runId job ⟨some o, some t⟩ with ⟨fault | u, s'⟩
    · have hs' : (perform (.recordJob runId job) ⟨some o, some t⟩).2 = s' :=
        congrArg Prod.snd hcall
      rw [hs']
      rcases touch_of_remnant (remnant_of_recordJob hcall) with h | ⟨t', ht, h⟩
      · exact .inl h
      · exact .inr (.inr ⟨t', ht, .inl h⟩)
    · have hs' : (perform (.recordJob runId job) ⟨some o, some t⟩).2 = s' :=
        congrArg Prod.snd hcall
      rw [hs']
      obtain ⟨t', ht, h⟩ := recordJob_eq_ok hcall
      exact .inr (.inr ⟨t', ht, .inr h⟩)
  | completeRun run =>
    rcases committing_cases "runs" (t := t) (o := some o)
      (f := fun tables => do tables.upsertRun (← runRow run)) rfl with h | ⟨t', hf, h⟩
    · exact .inl h
    -- The row is under the id of the run: it is new, or replaces the one that was there.
    · obtain ⟨row, hrow, hups⟩ := bind_eq_ok hf
      have hid : run.Declared → ∃ id, row.id = .text id := fun hd => id_runRow hd hrow
      rcases upsertRun_eq_ok hups with rfl | rfl
      · exact .inr (.inr ⟨_, .runAdded hid, .inr h⟩)
      · exact .inr (.inr ⟨_, .runEnded row, .inr h⟩)
  | deleteRun runId =>
    cases hid : Cell.ofText runId with
    | error fault => exact .inl (by simp only [perform, deleteRun, hid])
    | ok id =>
      refine .inr (.inr ⟨_, .runDeleted id, .inr ?_⟩)
      simp only [perform, deleteRun, hid, commit]
  | getRun runId => exact .inl rfl
  | reopen => exact .inr (.inl rfl)

/-- The tables as they are seen and as they are committed have a property. -/
def Has (P : Tables → Prop) (s : Store) : Prop := ∃ o t : Tables, s = ⟨some o, some t⟩ ∧
    P o ∧ P t

/-- What no touch takes from the tables, no calls take from the store. -/
theorem Has.inTurn {P : Tables → Prop} (calls : List Call)
    (hkept : ∀ c ∈ calls, ∀ t t', Tables.Touch t c t' → P t → P t') (h : s.Has P) :
    (Store.inTurn perform calls s).2.Has P := by
  induction calls generalizing s with
  | nil => exact h
  | cons c calls ih =>
    refine ih (fun d hd => hkept d (List.mem_cons_of_mem c hd)) ?_
    obtain ⟨o, t, rfl, ho, ht⟩ := h
    rcases perform_cases c o t with h | h | ⟨t', htouch, h | h⟩
    · exact ⟨o, t, h, ho, ht⟩
    · exact ⟨o, o, h, ho, ho⟩
    · exact ⟨o, t', h, ho, hkept c List.mem_cons_self t t' htouch ht⟩
    · have ht' := hkept c List.mem_cons_self t t' htouch ht
      exact ⟨t', t', h, ht', ht'⟩

end Store

/-! ## What is listed -/

/-- A job without its steps. -/
def JobRecord.withoutSteps (j : JobRecord) : JobRecord := { j with steps := [] }

/-- A run without the steps of its jobs. -/
def RunRecord.withoutSteps (r : RunRecord) : RunRecord :=
  { r with jobs := r.jobs.map JobRecord.withoutSteps }

/-- Those that started last come first. -/
def NewestFirst (runs : List RunRecord) : Prop :=
  runs.Pairwise fun a b => ∃ s u : Stamp, a.startedAt = some s ∧ b.startedAt = some u ∧
    s.offset = some 0 ∧ u.offset = some 0 ∧ u.localMicros ≤ s.localMicros

/-- The run started at a point in time that exists and was told in universal time. -/
def RunRow.StartedInUtc (r : RunRow) : Prop :=
  ∃ s : Stamp, s.Valid ∧ s.offset = some 0 ∧ r.startedAt = .text s.text

namespace Tables

variable {t : Tables}

/-- What is recorded of the run of a row, with its jobs in the order in which they were
recorded. -/
def recorded (t : Tables) (r : RunRow) : RunRecord :=
  { runId := r.id.toValue
    status := r.status.toValue
    jobs := (t.jobs.filter fun j => r.id.meets j.runId).map (Store.jobRecord t true)
    branch := r.branch.toValue
    startedAt := Store.readTime r.startedAt
    finishedAt := Store.readTime r.finishedAt }

theorem runRecord_eq (h : t.Orderly) (r : RunRow) :
    Store.runRecord t false r = (t.recorded r).withoutSteps := by
  unfold Store.runRecord recorded RunRecord.withoutSteps
  rw [jobsOf_of_positions h, List.map_map]
  rfl

/-- Does a text come no later than another? -/
def textNotBefore (a b : String) : Bool := !decide (a.toList < b.toList)

/-- Rows in the order in which runs are listed. -/
def listed (t : Tables) : List RunRow :=
  t.runs.mergeSort fun a b => a.startedAt.notBefore b.startedAt

/-- The text by which the row of a run is sorted. -/
def startText (r : RunRow) : String :=
  match r.startedAt with
  | .text s => s
  | .null | .int _ | .real _ => ""

/-- **Rows that are sorted by the texts of their times are sorted by their times.** -/
theorem newestFirst_listed (h : ∀ r ∈ t.runs, r.StartedInUtc) :
    NewestFirst (t.listed.map fun r => (t.recorded r).withoutSteps) := by
  have hmap : t.listed.map startText = (t.runs.map startText).mergeSort textNotBefore := by
    refine List.map_mergeSort fun a ha b hb => ?_
    obtain ⟨s, -, -, hs⟩ := h a ha
    obtain ⟨u, -, -, hu⟩ := h b hb
    simp only [startText, hs, hu]
    rfl
  -- The rows are sorted by their texts. That these sort as the times do needs them all to be in
  -- UTC.
  have hsorted : (t.listed.map startText).Pairwise fun a b => textNotBefore a b = true := by
    rw [hmap]
    refine List.pairwise_mergeSort (fun a b c hab hbc => ?_) (fun a b => ?_) _
    · simp only [textNotBefore, Bool.not_eq_true', decide_eq_false_iff_not, List.not_lt] at *
      exact List.le_trans hbc hab
    · simp only [textNotBefore, Bool.or_eq_true, Bool.not_eq_true', decide_eq_false_iff_not,
        List.not_lt]
      exact List.le_total b.toList a.toList
  refine List.pairwise_map.2 (List.Pairwise.imp_of_mem ?_ (List.pairwise_map.1 hsorted))
  intro a b ha hb hle
  have hmem : ∀ {r}, r ∈ t.listed → r ∈ t.runs :=
    fun hr => (List.mergeSort_perm _ _).mem_iff.1 hr
  obtain ⟨s, hsv, hsu, hs⟩ := h a (hmem ha)
  obtain ⟨u, huv, huu, hu⟩ := h b (hmem hb)
  have htime : ∀ {v : Stamp}, v.Valid → Store.readTime (.text v.text) = some v := by
    intro v hv
    rw [Store.readTime, hv.read_text]
    rfl
  refine ⟨s, u, ?_, ?_, hsu, huu, ?_⟩
  · show Store.readTime a.startedAt = some s
    rw [hs, htime hsv]
  · show Store.readTime b.startedAt = some u
    rw [hu, htime huv]
  · simp only [startText, hs, hu, textNotBefore, Bool.not_eq_true',
      decide_eq_false_iff_not] at hle
    rw [Stamp.toList_text_lt_iff hsv huv hsu huu] at hle
    exact Nat.le_of_not_lt hle

end Tables

namespace Tables

variable {t : Tables} {id : String}

theorem recorded_eq {r : RunRow} (h : r.id = .text id) :
    t.recorded r = recordWith id (t.jobRecords id) r := by
  unfold recorded recordWith jobRecords
  rw [h]
  rfl

/-- A run is what is recorded of its row. -/
theorem view_eq_some_iff (h : t.Sound) {run : RunRecord} :
    t.view id = some run ↔ ∃ r ∈ t.runs, r.id = .text id ∧ run = t.recorded r := by
  rw [view_ofString, runAt, Option.map_eq_some_iff]
  constructor
  · rintro ⟨r, hfind, rfl⟩
    have hid := isRun_iff.1 (List.find?_some hfind)
    exact ⟨r, List.mem_of_find?_eq_some hfind, hid, (recorded_eq hid).symm⟩
  · rintro ⟨r, hr, hid, rfl⟩
    refine ⟨r, ?_, (recorded_eq hid).symm⟩
    obtain ⟨o, ho⟩ := Option.isSome_iff_exists.1 (List.find?_isSome.2 ⟨r, hr, isRun_iff.2 hid⟩)
    have hoid := isRun_iff.1 (List.find?_some ho)
    have hsame := List.inj_on_of_nodup_map h.runs (List.mem_of_find?_eq_some ho) hr
      (hoid.trans hid.symm)
    rw [ho, hsame]

end Tables

namespace Store

variable {t : Tables}

theorem listRuns_eq {o : Option Tables} (h : t.Orderly) (limit : Option Int) :
    listRuns ⟨o, some t⟩ limit =
      if Cell.fits (limit.getD (-1)) then
        .ok (if limit.getD (-1) < 0 then t.listed.map fun r => (t.recorded r).withoutSteps
          else (t.listed.map fun r => (t.recorded r).withoutSteps).take (limit.getD (-1)).toNat)
      else .error .tooLarge := by
  have hrows : (fun r => (t.recorded r).withoutSteps) = runRecord t false :=
    funext fun r => (Tables.runRecord_eq h r).symm
  unfold listRuns
  dsimp only
  rw [hrows, ← List.map_take, ← apply_ite (List.map (runRecord t false))]
  cases Cell.fits (limit.getD (-1)) <;> rfl

/-- The store after some calls, of which the first finds empty tables. -/
def after (calls : List Call) : Store := (inTurn perform calls Store.empty.createTables).2

/-- The runs of a history are listed: each of them once. -/
structure Lists (h : History) (listing : List RunRecord) : Prop where
  once : (listing.map RunRecord.runId).Nodup
  all : ∀ run, run ∈ listing ↔ ∃ id full, h id = some full ∧ run = full.withoutSteps

/-- What is listed of sound tables are the runs of the history that they stand for. -/
theorem lists_view (hsound : t.Sound) (hnamed : t.Named) {listing : List RunRecord}
    (hperm : listing.Perm (t.runs.map fun r => (t.recorded r).withoutSteps)) :
    Lists t.view listing where
  once := by
    rw [(hperm.map RunRecord.runId).nodup_iff, List.map_map]
    have hids : t.runs.map (RunRecord.runId ∘ fun r => (t.recorded r).withoutSteps) =
        (t.runs.map RunRow.id).map Cell.toValue := by
      rw [List.map_map]
      rfl
    rw [hids]
    refine List.Nodup.map_on ?_ hsound.runs
    intro a ha b hb hsame
    obtain ⟨r, hr, rfl⟩ := List.mem_map.1 ha
    obtain ⟨o, ho, rfl⟩ := List.mem_map.1 hb
    obtain ⟨id, hid⟩ := hnamed r hr
    obtain ⟨id', hid'⟩ := hnamed o ho
    rw [hid, hid'] at hsame ⊢
    exact congrArg Cell.text (Text.ofString_inj.1 (Value.text.inj hsame))
  all run := by
    rw [hperm.mem_iff, List.mem_map]
    constructor
    · rintro ⟨r, hr, rfl⟩
      obtain ⟨id, hid⟩ := hnamed r hr
      exact ⟨id, t.recorded r, (Tables.view_eq_some_iff hsound).2 ⟨r, hr, hid, rfl⟩, rfl⟩
    · rintro ⟨id, full, hfull, rfl⟩
      obtain ⟨id, hid, -⟩ := Option.bind_eq_some_iff.1 hfull
      obtain rfl := Text.string?_eq_some_iff.1 hid
      obtain ⟨r, hr, -, rfl⟩ := (Tables.view_eq_some_iff hsound).1 hfull
      exact ⟨r, hr, rfl⟩

/-- **Each recorded run is listed once, those that started last first.** This holds after any
calls, refused ones among them, if all runs started in universal time. The jobs of a run are
listed in the order in which they were recorded, without their steps. A limit takes the first of
these runs, unless it does not fit into 64 bits. If all arguments were as declared, the runs are
those of the history as a map. -/
theorem lists_newest_first (calls : List Call) :
    ∃ o t : Tables, after calls = ⟨some o, some t⟩ ∧
      ((∀ r ∈ t.runs, r.StartedInUtc) → ∃ listing : List RunRecord,
        listing.Perm (t.runs.map fun r => (t.recorded r).withoutSteps) ∧ NewestFirst listing ∧
        (after calls).listRuns none = .ok listing ∧
        (∀ limit : Int, (after calls).listRuns (some limit) =
          if Cell.fits limit then .ok (if limit < 0 then listing else listing.take limit.toNat)
          else .error .tooLarge) ∧
        ((∀ c ∈ calls, c.Declared) →
            Lists (inTurn History.perform calls .blank).2 listing)) := by
  have hblank : Store.empty.createTables.Has Tables.Orderly := ⟨.blank, .blank, rfl, .nil, .nil⟩
  obtain ⟨o, t, hstore, -, horderly⟩ := hblank.inTurn calls fun c _ t t' htouch => htouch.orderly
  refine ⟨o, t, hstore, fun hutc => ⟨t.listed.map fun r => (t.recorded r).withoutSteps, ?_, ?_,
    ?_, ?_, ?_⟩⟩
  · exact (List.mergeSort_perm _ _).map _
  · exact Tables.newestFirst_listed hutc
  · rw [after, hstore, listRuns_eq horderly]
    rfl
  · intro limit
    rw [after, hstore, listRuns_eq horderly]
    rfl
  · intro hcalls
    obtain ⟨-, t', hstore', hsound, hview⟩ := keeps_blank.inTurn hcalls
    obtain ⟨-, rfl⟩ : o = t' ∧ t = t' := by
      rw [hstore] at hstore'
      cases hstore'
      exact ⟨rfl, rfl⟩
    -- Ids are texts only if the calls are declared, so this is a second induction over the same
    -- calls.
    have hnone : Tables.blank.Named := fun r hr => absurd hr List.not_mem_nil
    have hblank : Store.empty.createTables.Has Tables.Named :=
      ⟨.blank, .blank, rfl, hnone, hnone⟩
    obtain ⟨o', t', hstore'', -, hnamed⟩ := hblank.inTurn calls fun c hc t t' htouch =>
      htouch.named (hcalls c hc)
    obtain rfl : t = t' := by
      rw [hstore] at hstore''
      cases hstore''
      rfl
    rw [← hview]
    exact lists_view hsound hnamed ((List.mergeSort_perm _ _).map _)

/-- A run that starts on the full second, and one that starts a quarter of a second later. -/
def quarterApart : List Call :=
  [.createRun "full" none { springNoon with micro := 0 }, .createRun "quarter" none springNoon,
   .recordJob "full" (exitedJob "a" 0)]

/-- The later one is listed first, although its time has the text with a fraction. -/
theorem lists_newest_first_quarter :
    ∃ listing : List RunRecord, (after quarterApart).listRuns none = .ok listing ∧
    NewestFirst listing ∧
      (after quarterApart).listRuns (some 1) = .ok (listing.take 1) ∧
      (after quarterApart).listRuns (some Cell.wordBound) = .error .tooLarge ∧
      Lists (inTurn History.perform quarterApart .blank).2 listing := by
  have hvalid : Stamp.Valid { springNoon with micro := 0 } :=
    ⟨rfl, by decide, by decide, by decide, by decide, by rintro o ⟨⟩; decide⟩
  have hcalls : ∀ c ∈ quarterApart, c.Declared := by
    simp [quarterApart, Call.Declared, valid_springNoon, hvalid, storable_exitedJob, Cell.fits,
      Cell.wordBound]
  obtain ⟨o, t, hstore, hlisted⟩ := lists_newest_first quarterApart
  have hruns : t.runs =
      [startRow "full" none { springNoon with micro := 0 },
       startRow "quarter" none springNoon] := by
    have hseen : (after quarterApart).seen.map Tables.runs = some t.runs :=
      congrArg (fun s => s.seen.map Tables.runs) hstore
    have hrows : (after quarterApart).seen.map Tables.runs = some
        [startRow "full" none { springNoon with micro := 0 },
         startRow "quarter" none springNoon] := by
      decide +kernel
    exact Option.some.inj (hseen.symm.trans hrows)
  obtain ⟨listing, -, hnewest, hall, hlimit, hdeclared⟩ := hlisted (by
    rw [hruns]
    intro r hr
    simp only [List.mem_cons, List.not_mem_nil, or_false] at hr
    rcases hr with rfl | rfl
    · exact ⟨_, hvalid, rfl, rfl⟩
    · exact ⟨_, valid_springNoon, rfl, rfl⟩)
  exact ⟨listing, hall, hnewest, hlimit 1, hlimit Cell.wordBound, hdeclared hcalls⟩

/-- A limit that does not fit into 64 bits is refused, although there is only one run to list. -/
theorem limit_refused :
    (oneJobRecorded.listRuns none).map List.length = .ok 1 ∧
      (oneJobRecorded.listRuns (some (Cell.wordBound - 1))).map List.length = .ok 1 ∧
      oneJobRecorded.listRuns (some Cell.wordBound) = .error .tooLarge := by
  refine ⟨by decide +kernel, by decide +kernel, ?_⟩
  have hseen : oneJobRecorded.seen.isSome = true := by decide +kernel
  obtain ⟨t, ht⟩ := Option.isSome_iff_exists.1 hseen
  rw [listRuns, ht]
  rfl

end Store

end Conveyor
