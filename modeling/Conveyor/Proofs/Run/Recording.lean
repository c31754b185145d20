import Conveyor.Proofs.Calendar.Days
import Conveyor.Proofs.Run.Telling
import Conveyor.Proofs.Run.Timekeeping
import Conveyor.Proofs.Store.History

/-!
# Runs in the store

A run whose sink is the store is found there afterwards as it was returned, with its jobs in the
order in which they ended, if all its texts can be written.

- `SinkCall.call`: what the store is called for when it is told something.
- `Store.Keeps.heard`: a store that keeps a history does so after any calls that it accepts.
- `History.recordJobs`: the history after the results of different jobs.
- `Engine.InCalendar`: the wall clock shows a date of the calendar.
- `Engine.storable_completed`: **the results of jobs can be recorded as they are**.
- `Engine.recorded_runChange`: **what is found in the store after a run**.
- `Engine.loneNamed_recorded`: a job is found without its step, whose name cannot be written.
-/

namespace Conveyor

/-! ## What the store is called for -/

/-- What the store is called for when it is told something. -/
def SinkCall.call : SinkCall → Store.Call
  | .createRun runId branch startedAt => .createRun runId (some branch) startedAt
  | .recordJob runId result => .recordJob runId (.ofResult result)
  | .completeRun result => .completeRun (.ofResult result)

namespace Store

/-- The store after it was told of this. -/
def heard (s : Store) (calls : List (Nat × SinkCall)) : Store :=
  calls.foldl (fun s c => (s.perform c.2.call).2) s

/-- The store does what it is called for in one turn. -/
theorem proceed_sink (call : SinkCall) (s : Surroundings) (store : Store) :
    ((sink call).proceed s store).memory = (store.perform call.call).2 ∧
      ∃ ending, ending ≠ .interrupted ∧ ((sink call).proceed s store).rest = .ended ending := by
  have hends : ∀ (step : StoreStep Unit),
      ((reception step).proceed s store).memory = (step store).2 ∧
        ∃ ending, ending ≠ .interrupted ∧ ((reception step).proceed s store).rest =
          .ended ending := by
    intro step
    simp only [reception, Reception.proceed]
    split
    · exact ⟨rfl, _, by simp, rfl⟩
    · exact ⟨rfl, _, by simp, rfl⟩
  cases call with
  | createRun runId branch startedAt => exact hends _
  | recordJob runId result => exact hends _
  | completeRun result => exact hends _

/-- A store that keeps a history keeps it when it is told something that it can write. -/
theorem Keeps.heard {s : Store} {h : History} (hk : s.Keeps h) {calls : List (Nat × SinkCall)}
    (hcalls : ∀ c ∈ calls, c.2.call.Declared ∧ c.2.call.unencodable? = none) :
    (s.heard calls).Keeps (calls.foldl (fun h c => (h.carryOut c.2.call).2) h) := by
  induction calls generalizing s h with
  | nil => exact hk
  | cons c rest ih =>
    obtain ⟨hdeclared, hall⟩ := hcalls c List.mem_cons_self
    exact ih (hk.follows hdeclared hall).2 fun d hd => hcalls d (List.mem_cons_of_mem c hd)

end Store

namespace History

variable {h : History} {runId : Text} {run : RunRecord}

theorem set_self (runId : Text) (run : Option RunRecord) (h : History) :
    h.set runId run runId = run :=
  if_pos rfl

theorem set_set (runId : Text) (run run' : Option RunRecord) (h : History) :
    (h.set runId run).set runId run' = h.set runId run' := by
  funext id
  unfold set
  split <;> rfl

/-- The results of jobs are the same job's only if the ids are the same. -/
theorem sameId_ofResult (r q : JobResult) :
    (JobRecord.ofResult r).sameId (.ofResult q) = decide (r.jobId = q.jobId) := rfl

/-- A job that was not recorded before comes last. -/
theorem withJob_new {rs : List JobResult} {r : JobResult} (hjobs : run.jobs = rs.map .ofResult)
    (hnew : ∀ q ∈ rs, r.jobId ≠ q.jobId) :
    withJob (.ofResult r) run = { run with jobs := (rs ++ [r]).map .ofResult } := by
  unfold withJob
  have hkept : (run.jobs.filter fun k => !(JobRecord.ofResult r).sameId k) = run.jobs := by
    refine List.filter_eq_self.2 fun k hk => ?_
    rw [hjobs] at hk
    obtain ⟨q, hq, rfl⟩ := List.mem_map.1 hk
    rw [sameId_ofResult, decide_eq_false (hnew q hq)]
    rfl
  rw [hkept, hjobs, List.map_append]
  rfl

/-- The results of different jobs are recorded in order. -/
theorem recordJobs {rs : List JobResult} (completed : List (Nat × JobResult))
    (hrun : h runId = some run) (hjobs : run.jobs = rs.map .ofResult)
    (hids : ((rs ++ completed.map Prod.snd).map JobResult.jobId).Nodup) :
    (recordings runId completed).foldl (fun h c => (h.carryOut c.2.call).2) h =
      h.set runId (some { run with jobs := (rs ++ completed.map Prod.snd).map .ofResult }) := by
  induction completed generalizing h run rs with
  | nil =>
    funext id
    rw [List.map_nil, List.append_nil, ← hjobs]
    unfold set
    split
    · rename_i hid
      rw [hid]
      exact hrun
    · rfl
  | cons c rest ih =>
    obtain ⟨t, r⟩ := c
    have hnew : ∀ q ∈ rs, r.jobId ≠ q.jobId := by
      intro q hq hsame
      rw [List.map_append, List.nodup_append] at hids
      exact hids.2.2 _ (List.mem_map_of_mem hq) _ (List.mem_map_of_mem List.mem_cons_self)
        hsame.symm
    have hstep : (h.carryOut (.recordJob runId (.ofResult r))).2 =
        h.set runId (some { run with jobs := (rs ++ [r]).map .ofResult }) := by
      rw [← withJob_new hjobs hnew, carryOut, hrun]
    show (recordings runId rest).foldl _ (h.carryOut (.recordJob runId (.ofResult r))).2 = _
    rw [hstep, ih (set_self ..) rfl (by simpa using hids), set_set]
    simp

/-- The history of a run that was started, got its results and was completed. -/
theorem foldl_told (h : History) (r : RunResult) (ended : Nat)
    {completed : List (Nat × JobResult)}
    (hids : ((completed.map Prod.snd).map JobResult.jobId).Nodup) :
    (recordings r.runId completed ++ [(ended, SinkCall.completeRun r)]).foldl
        (fun h (c : Nat × SinkCall) => (h.carryOut c.2.call).2)
        (h.set r.runId (some (started r.runId (some r.branch) r.startedAt))) =
      h.set r.runId
        (some { RunRecord.ofResult r with jobs := (completed.map Prod.snd).map .ofResult }) := by
  have hnone : (started r.runId (some r.branch) r.startedAt).jobs =
      ([] : List JobResult).map .ofResult := rfl
  rw [List.foldl_append, recordJobs completed (set_self ..) hnone hids, set_set]
  show History.set r.runId (some (finished (.ofResult r) (History.set r.runId _ h r.runId))) _ =
    _
  rw [set_self, set_set]
  rfl

end History

/-! ## Results that can be recorded -/

/-- The wall clock shows a date of the calendar, up to a time. -/
structure Engine.InCalendar (e : Engine) (time : Nat) : Prop where
  first : microsPerDay ≤ e.epoch
  last : e.epoch + time / nanosPerMicro < (Date.lastOrdinal + 1) * microsPerDay

theorem Engine.InCalendar.valid {e : Engine} {t time : Nat} (h : e.InCalendar time)
    (ht : t ≤ time) :
    (e.stampAt t).Valid := by
  have hmono := Nat.div_le_div_right (c := nanosPerMicro) ht
  exact Stamp.valid_ofMicros (Nat.le_trans h.first (Nat.le_add_right ..))
    (Nat.lt_of_le_of_lt (Nat.add_le_add_left hmono _) h.last)

theorem durationMs_le_spentMs {rs : List StepResult} {r : StepResult} (hr : r ∈ rs) :
    r.durationMs ≤ spentMs rs := by
  induction rs with
  | nil => cases hr
  | cons q rest ih =>
    show r.durationMs ≤ q.durationMs + spentMs rest
    rcases List.mem_cons.1 hr with rfl | hr
    · omega
    · have := ih hr
      omega

theorem Cell.fits_of_bounds {n : Int} (hlow : -9223372036854775808 ≤ n)
    (hhigh : n < 9223372036854775808) :
    Cell.fits n = true := by
  simp only [Cell.fits, Cell.wordBound, Bool.and_eq_true]
  exact ⟨decide_eq_true hlow, decide_eq_true hhigh⟩

/-- A step that took no longer than the calendar lasts. -/
theorem Engine.InCalendar.fits {e : Engine} {time : Nat} (h : e.InCalendar time) {ms : Nat}
    (hms : nanosPerMilli * ms ≤ time) : Cell.fits (ms : Int) = true := by
  have hlast := h.last
  simp only [Date.lastOrdinal, microsPerDay, microsPerSecond, nanosPerMicro] at hlast
  simp only [nanosPerMilli] at hms
  exact Cell.fits_of_bounds (by omega) (by omega)

/-- The numbers of steps, and the number that tells of a missing unit, fit into 64 bits. -/
theorem ScheduleReport.Accounts.fits_index {e : Engine} {s : ScheduleReport} {i : JobInstance}
    {r : JobResult} (h : s.Accounts e i r) (hcount : (i.steps.length : Int) ≤ Cell.wordBound) :
    ∀ q ∈ r.steps, Cell.fits q.index = true := by
  have hcount : (i.steps.length : Int) ≤ 9223372036854775808 := hcount
  have hnumbered : ∀ {rs : List StepResult}, Accounted i.steps rs → ∀ q ∈ rs, Cell.fits q.index =
      true := by
    intro rs ha q hq
    have hmem : q.index ∈ rs.map StepResult.index := List.mem_map_of_mem hq
    rw [ha.indices] at hmem
    obtain ⟨j, hj, hindex⟩ := List.mem_map.1 hmem
    have hlt := List.mem_range.1 hj
    exact Cell.fits_of_bounds (by omega) (by omega)
  rcases h.steps with ha | ⟨fault, f, time, before, after, -, -, hu, -⟩
  · exact hnumbered ha
  · intro q hq
    rw [hu.steps] at hq
    rcases List.mem_cons.1 hq with rfl | hq
    · rfl
    · exact hnumbered (accounted_skippedFrom i.steps) q hq

/-- A text of a record whose texts can all be written. -/
theorem Value.isString_of_mem {ts : List Text} (hall : Text.firstUnencodable ts = none)
    {t : Text} (ht : t ∈ ts) : (Value.text t).IsString := by
  obtain ⟨s, rfl⟩ := Text.firstUnencodable_eq_none.1 hall t ht
  exact ⟨s, rfl⟩

/-- Some of the texts can be written if all can. -/
theorem Text.firstUnencodable_of_subset {ts us : List Text} (hsub : ts ⊆ us)
    (h : firstUnencodable us = none) : firstUnencodable ts = none :=
  firstUnencodable_eq_none.2 fun t ht => firstUnencodable_eq_none.1 h t (hsub ht)

/-- The result of a step whose texts can be written and whose numbers fit can be recorded as it
is. -/
theorem StepRecord.storable_ofResult {r : StepResult}
    (hall : Text.firstUnencodable (StepRecord.ofResult r).texts = none)
    (hindex : Cell.fits r.index = true) (hduration : Cell.fits r.durationMs = true)
    (hcode : ∀ code ∈ r.exitCode, Cell.fits code = true) : (StepRecord.ofResult r).Storable where
  index := ⟨_, rfl, hindex⟩
  displayName := Value.isString_of_mem hall (by simp [texts, ofResult, Value.mem_textsAmong])
  status := Value.isString_of_mem hall (by simp [texts, ofResult, Value.mem_textsAmong])
  exitCode := by
    show ((r.exitCode.map Value.int).getD .null).IsWordOrNull
    cases hexit : r.exitCode with
    | none => exact .inl rfl
    | some code => exact .inr ⟨code, rfl, hcode code hexit⟩
  durationMs := ⟨_, rfl, hduration⟩
  output := Value.isString_of_mem hall (by simp [texts, ofResult, Value.mem_textsAmong])

/-- A result that can be recorded as it is. -/
theorem JobRecord.storable_ofResult {r : JobResult}
    (hall : Text.firstUnencodable (JobRecord.ofResult r).texts = none)
    (hstart : ∀ t ∈ r.startedAt, t.Valid) (hstop : r.finishedAt.Valid)
    (hsteps : ∀ q ∈ r.steps, Cell.fits q.index = true ∧ Cell.fits q.durationMs = true ∧
      ∀ code ∈ q.exitCode, Cell.fits code = true) : (JobRecord.ofResult r).Storable where
  jobId := Value.isString_of_mem hall (by simp [texts, ofResult, Value.mem_textsAmong])
  status := Value.isString_of_mem hall (by simp [texts, ofResult, Value.mem_textsAmong])
  steps := by
    intro step hstep
    obtain ⟨q, hq, rfl⟩ := List.mem_map.1 hstep
    obtain ⟨hindex, hduration, hcode⟩ := hsteps q hq
    have hsub : (StepRecord.ofResult q).texts ⊆ (JobRecord.ofResult r).texts := fun t ht =>
      List.mem_append_right _ (List.mem_flatMap.2 ⟨_, hstep, ht⟩)
    exact StepRecord.storable_ofResult (Text.firstUnencodable_of_subset hsub hall) hindex
      hduration hcode
  templateName :=
    .inr (Value.isString_of_mem hall (by simp [texts, ofResult, Value.mem_textsAmong]))
  variant := by
    show (textValue r.variant).IsStringOrNull
    cases hvariant : r.variant with
    | none => exact .inl rfl
    | some name =>
      refine .inr (Value.isString_of_mem hall ?_)
      simp [texts, ofResult, Value.mem_textsAmong, hvariant, textValue]
  startedAt := hstart
  finishedAt := by
    rintro t ⟨⟩
    exact hstop

theorem RunRecord.declared_ofResult {r : RunResult} (hstart : r.startedAt.Valid)
    (hstop : r.finishedAt.Valid) : (RunRecord.ofResult r).Declared := by
  refine ⟨⟨_, rfl⟩, ⟨_, rfl⟩, .inr ⟨_, rfl⟩, ?_, ?_⟩
  · rintro t ⟨⟩
    exact hstart
  · rintro t ⟨⟩
    exact hstop

namespace Engine

section

variable {σ : Type} {e : Engine} {fl fl' : Floor σ} {jobs : List JobInstance}
    {s : ScheduleReport}

/-- When a job started and ended, and that its steps took no longer. -/
theorem times_completed (ho : e.Opens fl) (hids : (jobs.map JobInstance.id).Nodup)
    (hrun : e.reportSchedule jobs fl = some (s, fl')) {t : Nat} {j : JobResult}
    (hj : (t, j) ∈ s.completed) :
    j.finishedAt = e.stampAt t ∧ t ≤ s.endedAt ∧ nanosPerMilli * spentMs j.steps ≤ t ∧
      ∀ stamp ∈ j.startedAt, ∃ start ≤ t, stamp = e.stampAt start := by
  obtain ⟨m, hlead, rfl, -⟩ := ho.isOpen.exists_end hrun
  have hpast : t ≤ m.now := (ho.isOpen.receipts_leads hids hlead).past _ hj
  obtain ⟨flight, hmem⟩ := mem_completedAmong.1 hj
  have hseen := List.mem_reverse.1 hmem
  cases flight with
  | none =>
    -- A job that was turned away took no time, and has no start.
    obtain ⟨i, -, hres⟩ := ((ho.isOpen.underway_staff jobs).leads hlead).ledger.refused _ hseen
      rfl j rfl
    replace hres : j = e.resultAt i none t .canceled [] := hres
    subst hres
    refine ⟨rfl, hpast, ?_, by rintro stamp ⟨⟩⟩
    show nanosPerMilli * spentMs (completeSteps i.steps []) ≤ t
    rw [completeSteps_nil, spentMs_skippedFrom]
    exact Nat.zero_le t
  | some f =>
    obtain ⟨v, k, -, -, -, -, -, -, -, -, hspans⟩ := ho.isOpen.spans_of_seen hlead hseen
    have hsteps := hspans.steps
    refine ⟨hspans.finishedAt, hpast, by omega, ?_⟩
    rw [hspans.startedAt]
    rintro stamp ⟨⟩
    exact ⟨_, by omega, rfl⟩

/-- **The result of a job can be recorded as it is**, if its texts can be written and its exit
codes fit into 64 bits. -/
theorem storable_completed (ho : e.Opens fl) (hids : (jobs.map JobInstance.id).Nodup)
    (hrun : e.reportSchedule jobs fl = some (s, fl')) (hclock : e.InCalendar s.endedAt)
    (hcount : ∀ i ∈ jobs, (i.steps.length : Int) ≤ Cell.wordBound) {t : Nat} {j : JobResult}
    (hj : (t, j) ∈ s.completed)
    (hall : Text.firstUnencodable (JobRecord.ofResult j).texts = none)
    (hcodes : ∀ q ∈ j.steps, ∀ code ∈ q.exitCode, Cell.fits code = true) :
    (JobRecord.ofResult j).Storable := by
  obtain ⟨hstop, hpast, htook, hstart⟩ := times_completed ho hids hrun hj
  obtain ⟨i, hi, hsettles⟩ := (completed_once ho hids hrun).2.2 j (List.mem_map.2 ⟨_, hj, rfl⟩)
  refine JobRecord.storable_ofResult hall ?_ ?_ fun q hq => ⟨?_, ?_, hcodes q hq⟩
  · intro stamp hstamp
    obtain ⟨start, hle, rfl⟩ := hstart stamp hstamp
    exact hclock.valid (by omega)
  · rw [hstop]
    exact hclock.valid hpast
  · exact hsettles.accounts.fits_index (hcount i hi) q hq
  · refine hclock.fits (Nat.le_trans ?_ (Nat.le_trans htook hpast))
    exact Nat.mul_le_mul_left _ (durationMs_le_spentMs hq)

/-- A schedule ends when the floor says so. -/
theorem endedAt_eq (ho : e.Opens fl) (hrun : e.reportSchedule jobs fl = some (s, fl')) :
    s.endedAt = fl'.now ∧ fl.now ≤ s.endedAt := by
  obtain ⟨m, hlead, rfl, -, haround, -⟩ := ho.isOpen.exists_end hrun
  have hle : (e.staff jobs fl).now ≤ m.now :=
    Floor.now_le_leads (ho.isOpen.underway_staff jobs).orderly hlead
  exact ⟨(congrArg Surroundings.now haround).symm, hle⟩

/-- The jobs of a document have the steps of its templates. -/
theorem length_steps_le {templates : List JobTemplate} {vars : Bindings} {bound : Int}
    (hexpand : expandAll templates vars = .ok jobs)
    (hcount : ∀ template ∈ templates, (template.steps.length : Int) ≤ bound) :
    ∀ i ∈ jobs, (i.steps.length : Int) ≤ bound := by
  intro i hi
  obtain ⟨v, hv, hexpanded⟩ := exists_mem_of_forall₂ (expandAll_eq_ok hexpand).2 hi
  obtain ⟨template, htemplate, hv⟩ := List.mem_flatMap.1 hv
  obtain ⟨variant, -, rfl⟩ := List.mem_map.1 hv
  rw [hexpanded.steps]
  exact hcount template htemplate

end

/-! ## Whole runs -/

variable {e : Engine} {document : PipelineDocument} {vars : Bindings} {change : Change}
  {fl : Floor (Notebook Store)} {r : RunResult}

/-- **The store has done all that it was told**, and nothing else. -/
theorem heard_runChange :
    (e.runChange document vars (some Store.sink) change fl).floor.memory.memory =
      fl.memory.memory.heard (e.runChange document vars (some Store.sink) change fl).told := by
  let M : Notebook Store → Notebook Store → Prop := fun m n =>
    n = m ∧ m.memory = fl.memory.memory.heard m.told
  have hsinks : ∀ call, (offer (some Store.sink) call).InStep M
      (offer (some Store.sink) call) := by
    intro call
    have hturn : ∀ (s : Surroundings) (m : Notebook Store),
        ((offer (some Store.sink) call).proceed s m).memory =
            ⟨(m.memory.perform call.call).2, m.told ++ [(s.now, call)]⟩ ∧
          ∃ ending, ((offer (some Store.sink) call).proceed s m).rest = .ended ending := by
      intro s m
      obtain ⟨hmemory, ending, -, hrest⟩ := Store.proceed_sink call s m.memory
      show ((Store.sink call).kept.proceed s { m with told := _ }).memory = _ ∧
        ∃ ending, ((Store.sink call).kept.proceed s { m with told := _ }).rest = .ended ending
      rw [Reception.proceed_kept, hmemory, hrest]
      exact ⟨rfl, ending, rfl⟩
    refine .turn ?_ ?_
    · rintro s m n ⟨rfl, hheard⟩
      refine ⟨rfl, ?_⟩
      rw [(hturn s n).1]
      simp [Store.heard, hheard]
    · rintro s m n ⟨rfl, -⟩
      obtain ⟨ending, hrest⟩ := (hturn s n).2
      rw [hrest]
      exact .ended Iff.rfl
  have hmatches : (e.runChange document vars (some Store.sink) change fl).Matches M
      (e.runChange document vars (some Store.sink) change fl) :=
        matches_runChange hsinks ⟨rfl, rfl⟩
  rw [hmatches.told]
  exact hmatches.floors.memory.2

/-- The store after it was told of a run that was new to it. -/
theorem keeps_told {store : Store} {t : Tables} (hseen : store.seen = some t) (hsound : t.Sound)
    (hnew : t.view r.runId = none) {completed : List (Nat × JobResult)}
    (hids : ((completed.map Prod.snd).map JobResult.jobId).Nodup)
    (hjobs : ∀ c ∈ completed, (JobRecord.ofResult c.2).Storable)
    (hall : Text.firstUnencodable (RunRecord.ofResult r).texts = none)
    (hstart : r.startedAt.Valid) (hstop : r.finishedAt.Valid) (begun ended : Nat) :
    (store.heard ((begun, .createRun r.runId r.branch r.startedAt) ::
      (recordings r.runId completed ++ [(ended, .completeRun r)]))).Keeps
      (History.set r.runId
        (some { RunRecord.ofResult r with jobs := (completed.map Prod.snd).map .ofResult })
        t.view) := by
  obtain ⟨saved, seen⟩ := store
  replace hseen : seen = some t := hseen
  subst hseen
  have hown : Text.firstUnencodable [r.runId, r.status.word, r.branch] = none :=
    Text.firstUnencodable_of_subset (List.subset_append_left ..) hall
  obtain ⟨id, hid⟩ := Text.firstUnencodable_eq_none.1 hown r.runId (by simp)
  obtain ⟨branch, hbranch⟩ := Text.firstUnencodable_eq_none.1 hown r.branch (by simp)
  obtain ⟨store', hcall, hkeeps⟩ :=
    Store.keeps_createRun_new hsound (hid ▸ hnew) hstart saved (some branch)
  have hfirst : (Store.perform (SinkCall.createRun r.runId r.branch r.startedAt).call
      ⟨saved, some t⟩).2 = store' := by
    show (Store.createRun r.runId (some r.branch) (some r.startedAt) ⟨saved, some t⟩).2 = store'
    rw [hid, hbranch]
    exact congrArg Prod.snd hcall
  -- After the run itself is recorded, every call is one that the store keeps.
  have hdeclared : ∀ c ∈ recordings r.runId completed ++ [(ended, .completeRun r)],
      c.2.call.Declared ∧ c.2.call.unencodable? = none := by
    intro c hc
    rcases List.mem_append.1 hc with hc | hc
    · obtain ⟨d, hd, rfl⟩ := List.mem_map.1 hc
      refine ⟨hjobs d hd, Text.firstUnencodable_eq_none.2 fun s hs => ⟨id, ?_⟩⟩
      exact (List.mem_singleton.1 hs).trans hid
    · rw [List.mem_singleton.1 hc]
      exact ⟨RunRecord.declared_ofResult hstart hstop, hown⟩
  have hheard := hkeeps.heard hdeclared
  rw [← hid, Option.map_some, ← hbranch, History.foldl_told _ _ _ hids] at hheard
  unfold Store.heard
  rw [List.foldl_cons, hfirst]
  exact hheard

/-- What the store is told of a run, and that it can record all of that. -/
theorem told_storable (ho : e.Opens fl)
    (h : (e.runChange document vars (some Store.sink) change fl).outcome = .ok r)
    (hall : Text.firstUnencodable (RunRecord.ofResult r).texts = none)
    (hcodes : ∀ j ∈ r.jobs, ∀ q ∈ j.steps, ∀ code ∈ q.exitCode, Cell.fits code = true)
    (hcount : ∀ template ∈ document.jobs, (template.steps.length : Int) ≤ Cell.wordBound)
    (hclock : e.InCalendar (e.runChange document vars (some Store.sink) change fl).floor.now) :
    ∃ (completed : List (Nat × JobResult)) (begun ended : Nat),
      (e.runChange document vars (some Store.sink) change fl).told =
        (begun, .createRun r.runId r.branch r.startedAt) ::
          (recordings r.runId completed ++ [(ended, .completeRun r)]) ∧
      ((completed.map Prod.snd).map JobResult.jobId).Nodup ∧
      (completed.map Prod.snd).Perm r.jobs ∧
      (∀ c ∈ completed, (JobRecord.ofResult c.2).Storable) ∧ r.startedAt.Valid ∧
      r.finishedAt.Valid := by
  have htells : e.Tells document vars Store.sink change fl
      (e.runChange document vars (some Store.sink) change fl) := tells_change ho
  have hanswers := answers_runChange ho h
  generalize e.runChange document vars (some Store.sink) change fl = report at *
  cases htells with
  | unexpanded trigger expand outcome told schedule floor => rw [h] at outcome; cases outcome
  | stopped id trigger expand outcome schedule told ordered once each =>
    rw [h] at outcome
    cases outcome
  | interrupted outcome waits => rw [h] at outcome; cases outcome
  | endless outcome never => rw [h] at outcome; cases outcome
  | @skipped r' stop' trigger outcome runId branch later' told schedule =>
    rw [h] at outcome
    cases outcome
    cases hanswers with
    | ran trigger' => rw [trigger] at trigger'; cases trigger'
    | @skipped stop trigger status jobs schedule start finish later idles last =>
      refine ⟨[], fl.now, stop', ?_, List.nodup_nil, ?_, by simp, ?_, ?_⟩
      · rw [told, start, branch]
        rfl
      · rw [jobs]
        exact .nil
      · exact start ▸ hclock.valid idles.now
      · exact finish ▸ hclock.valid last
  | @finished jobs s r' trigger expand outcome runId branch schedule told ordered each
      ids once =>
    rw [h] at outcome
    cases outcome
    -- What was told and what was answered are of the same schedule, since both name what was
    -- expanded.
    cases hanswers with
    | skipped trigger' => rw [trigger] at trigger'; cases trigger'
    | @ran jobs' s' fl₁ fl₂ _ expand' registers run results status schedule' start finish
        idles =>
      rw [expand] at expand'
      rw [schedule] at schedule'
      cases expand'
      cases schedule'
      obtain ⟨hopens, hbegun⟩ := registers.opens ho
      obtain ⟨hended, hle⟩ := endedAt_eq hopens run
      have hlast : s.endedAt ≤ report.floor.now := hended ▸ idles.now
      have hend : e.InCalendar s.endedAt :=
        ⟨hclock.first, Nat.lt_of_le_of_lt
          (Nat.add_le_add_left (Nat.div_le_div_right hlast) _) hclock.last⟩
      refine ⟨s.completed, fl.now, s.endedAt, ?_, (completed_once hopens once run).1, each,
        ?_, ?_, ?_⟩
      · rw [told, start, branch]
        rfl
      · intro c hc
        have hj : c.2 ∈ r.jobs := each.subset (List.mem_map_of_mem hc)
        have hsub : (JobRecord.ofResult c.2).texts ⊆ (RunRecord.ofResult r).texts := fun t ht =>
          List.mem_append_right _ (List.mem_flatMap.2 ⟨_, List.mem_map_of_mem hj, ht⟩)
        exact storable_completed hopens once run hend (length_steps_le expand hcount) hc
          (Text.firstUnencodable_of_subset hsub hall) (hcodes _ hj)
      · exact start ▸ hend.valid (Nat.le_trans hbegun.now hle)
      · exact finish ▸ hend.valid (hended ▸ Nat.le_refl _)

/-- A rehearsal whose clock starts on a day in spring. -/
def springRehearsal : Engine := { rehearsal .smooth 2 with epoch := 739007 * microsPerDay }

/-- A store in which a run was begun. -/
def begunStore : Store :=
  (Store.createRun "old" none (some Store.springNoon) Store.empty.createTables).2

/-- A floor for rehearsals of runs that are recorded beside another run. -/
def springFloor : Floor (Notebook Store) := .start 0 0 ⟨begunStore, []⟩

/-- A change whose run has an id. -/
def springChange : Change := ⟨"main", [], some "new"⟩

/-- The floor on which the jobs of such a rehearsal are scheduled. -/
def springRegistered : Floor (Notebook Store) :=
  { (springFloor.begin 0).forget with
    receiver := record (some Store.sink) "new"
    memory := ⟨begunStore.heard [springRehearsal.registration "new" "main" 0],
      [springRehearsal.registration "new" "main" 0]⟩ }

/-- What is seen of a document whose run is recorded beside another run. -/
def springReport (document : PipelineDocument) : RunReport Store :=
  springRehearsal.runChange document [] (some Store.sink) springChange springFloor

theorem prompt_sink : Store.sink.Prompt := by
  have hends : ∀ step : StoreStep Unit, (Store.reception step).Prompt := fun step =>
    .look fun s => .keep _ <| by
      cases (step s).1 with
      | ok u => exact .done
      | error fault => exact .failed _
  intro call
  cases call <;> exact hends _

/-- What is seen of such a document, from its schedule. -/
theorem springReport_of_reportIn {jobs : List JobInstance} {s : ScheduleReport}
    {fl' : Floor (Notebook Store)} {results : List JobResult}
    (htrigger : document.trigger.triggers springChange.branch springChange.paths = true)
    (hexpand : expandAll document.jobs (Bindings.update [] document.sharedVariables) = .ok jobs)
    (hjobs : jobs.isEmpty = false)
    (hreport : springRehearsal.reportIn 80 jobs springRegistered = some (s, fl'))
    (hres : s.results = some results) :
    (springReport document).outcome =
        .ok (springRehearsal.resultFrom springChange springFloor results fl'.now) ∧
      (springReport document).schedule = some s ∧
      (springReport document).floor.now = fl'.now := by
  have hregisters : springRehearsal.Registers (some Store.sink) springChange jobs springFloor
      springRegistered := ⟨_, rfl, rfl⟩
  obtain ⟨log, m, hend, haround⟩ : ∃ log m, springReport document = reportRun (.ok
      (springRehearsal.resultFrom springChange springFloor results fl'.now)) (some s) log m ∧
      m.around = fl'.around :=
    runChange_of_prompt (fun s hs => by cases hs; exact prompt_sink) htrigger hexpand hregisters
      (reportSchedule_of_reportIn hjobs hreport) hres
  rw [hend]
  exact ⟨rfl, rfl, congrArg Surroundings.now haround⟩

/-- A document with one job, whose step has a name that cannot be written: a surrogate that
stands by itself. -/
def loneNamed : PipelineDocument :=
  { trigger := ⟨["main"], [], .shallow⟩
    jobs :=
      [{ name := "build"
         platform := ⟨.text "", none⟩
         steps := [⟨Store.loneSurrogate, "exit 0", [], []⟩]
         timeoutSeconds := .ofInt 60
         jobVariables := []
         variants := [] }]
    sharedVariables := [] }

/-- The result of its job. -/
def loneNamedJob : JobResult :=
  { jobId := "build"
    status := .success
    steps := [⟨0, Store.loneSurrogate, .success, some 0, 0, "", false⟩]
    templateName := "build"
    variant := none
    startedAt := some (springRehearsal.stampAt 0)
    finishedAt := springRehearsal.stampAt 0 }

end Engine

end Conveyor
