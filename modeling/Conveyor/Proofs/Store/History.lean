import Conveyor.Proofs.Store.Integrity
import Conveyor.Proofs.Store.Rows

/-!
# The run history as a map

To its callers the store is a map from ids to runs. Three tables, positions and transactions
behave like that map over any sequence of calls.

- `Store.Call`, `Store.Answer`, `Store.perform`: calls on the store, and what they answer.
- `History`, `History.perform`: the same calls on a map.
- `Tables.view`: the map that some tables stand for, with one lemma per change of the tables.
- `Store.Keeps`: a store keeps a history; `Store.Keeps.perform`: **each call answers alike on
  both**.
- `Store.answers_perform`: **so do all sequences of calls**, and the tables always fit together.
-/

namespace Conveyor

/-! ## Calls -/

namespace Store

/-- A call on the store. -/
inductive Call where
  | createRun (runId : Text) (branch : Option Text) (startedAt : Stamp)
  | recordJob (runId : Text) (job : JobRecord)
  | completeRun (run : RunRecord)
  | deleteRun (runId : Text)
  | getRun (runId : Text)
  /-- Close the store and open it again. -/
  | reopen

/-- What a call answers. -/
inductive Answer where
  | done
  /-- Was there something to delete? -/
  | existed (b : Bool)
  | found (run : Option RunRecord)
  | refused (fault : StoreFault)

/-- The arguments of a call hold what they are declared to hold, and a job that is recorded can
be stored. -/
def Call.Declared : Call → Prop
  | createRun _ _ startedAt => startedAt.Valid
  | recordJob _ job => job.Storable
  | completeRun run => run.Declared
  | _ => True

/-- The texts of a call that have to be written before it can have an effect. -/
def Call.texts : Call → List Text
  | createRun runId branch _ => runId :: branch.toList
  | completeRun run => Value.textsAmong [run.runId, run.status, run.branch]
  | recordJob runId _ | deleteRun runId | getRun runId => [runId]
  | reopen => []

/-- A text of a call that cannot be written. -/
def Call.unencodable? (c : Call) : Option Text := Text.firstUnencodable c.texts

/-- An answer that is a result or a refusal. -/
def Answer.ofExcept {α : Type} (f : α → Answer) : Except StoreFault α → Answer
  | .ok a => f a
  | .error fault => .refused fault

/-- One call on the store. -/
def perform : Call → Store → Answer × Store
  | .createRun runId branch startedAt, s =>
    let (answer, s') := createRun runId branch (some startedAt) s
    (.ofExcept (fun _ => .done) answer, s')
  | .recordJob runId job, s =>
    let (answer, s') := recordJob runId job s
    (.ofExcept (fun _ => .done) answer, s')
  | .completeRun run, s =>
    let (answer, s') := completeRun run s
    (.ofExcept (fun _ => .done) answer, s')
  | .deleteRun runId, s =>
    let (answer, s') := deleteRun runId s
    (.ofExcept .existed answer, s')
  | .getRun runId, s => (.ofExcept .found (s.getRun runId), s)
  | .reopen, s => (.done, s.reopen)

/-- Calls one after another, and what they answer. -/
def inTurn {σ : Type} (step : Call → σ → Answer × σ) : List Call → σ → List Answer × σ
  | [], s => ([], s)
  | c :: rest, s =>
    let (answer, s') := step c s
    let (answers, last) := inTurn step rest s'
    (answer :: answers, last)

end Store

/-! ## Histories -/

/-- The recorded runs by id. -/
abbrev History := Text → Option RunRecord

/-- Do two jobs have the same id? -/
def JobRecord.sameId (j k : JobRecord) : Bool :=
  match j.jobId, k.jobId with
  | .text a, .text b => a = b
  | _, _ => false

namespace History

/-- Nothing is recorded. -/
def blank : History := fun _ => none

/-- Record a run under an id, or remove it. -/
def set (runId : Text) (run : Option RunRecord) (h : History) : History :=
  fun id => if id = runId then run else h id

/-- A run that has started. -/
def started (runId : Text) (branch : Option Text) (startedAt : Stamp) : RunRecord :=
  { runId := .text runId
    status := .text "running"
    jobs := []
    branch := textValue branch
    startedAt := some startedAt
    finishedAt := none }

/-- A run with one more job, in place of any other with its id. -/
def withJob (j : JobRecord) (run : RunRecord) : RunRecord :=
  { run with jobs := (run.jobs.filter fun k => !j.sameId k) ++ [j] }

/-- A run that is over: only its status and its end change. -/
def finished (run : RunRecord) : Option RunRecord → RunRecord
  | some old => { old with status := run.status, finishedAt := run.finishedAt }
  | none => { run with jobs := [] }

/-- One call on a history, if its texts can be written. -/
def carryOut : Store.Call → History → Store.Answer × History
  | .createRun runId branch startedAt, h =>
    match h runId with
    | some _ => (.refused (.unique "runs.id"), h)
    | none => (.done, h.set runId (some (started runId branch startedAt)))
  | .recordJob runId job, h =>
    match h runId with
    | some run => (.done, h.set runId (some (withJob job run)))
    | none => (.refused .dangling, h)
  | .completeRun run, h =>
    match run.runId with
    | .text runId => (.done, h.set runId (some (finished run (h runId))))
    | _ => (.done, h)
  | .deleteRun runId, h => (.existed (h runId).isSome, h.set runId none)
  | .getRun runId, h => (.found (h runId), h)
  | .reopen, h => (.done, h)

/-- One call on a history. Without an effect it is refused for a text that cannot be written. -/
def perform (c : Store.Call) (h : History) : Store.Answer × History :=
  match c.unencodable? with
  | some text => (.refused (.unencodable text), h)
  | none => h.carryOut c

end History

/-! ## What tables stand for -/

namespace Tables

variable {t t' : Tables} {id runId : String}

/-- Is this the row of the run? -/
def isRun (id : String) (r : RunRow) : Bool := (Cell.text id).meets r.id

theorem isRun_iff {r : RunRow} : isRun id r = true ↔ r.id = .text id := Cell.meets_text

/-- The records of the jobs of a run, as they stand. -/
def jobRecords (t : Tables) (id : String) : List JobRecord :=
  (t.jobs.filter fun j => (Cell.text id).meets j.runId).map (Store.jobRecord t true)

/-- The record of a run with some jobs. -/
def recordWith (id : String) (jobs : List JobRecord) (r : RunRow) : RunRecord :=
  { runId := .text id
    status := r.status.toValue
    jobs := jobs
    branch := r.branch.toValue
    startedAt := Store.readTime r.startedAt
    finishedAt := Store.readTime r.finishedAt }

/-- The run that tables have under an id. -/
def runAt (t : Tables) (id : String) : Option RunRecord :=
  (t.runs.find? (isRun id)).map (recordWith id (t.jobRecords id))

/-- The runs that tables have. There is none under an id that cannot be written. -/
def view (t : Tables) : History := fun id => id.string?.bind t.runAt

@[simp] theorem view_ofString (t : Tables) (id : String) : t.view id = t.runAt id := by
  rw [view, Text.string?_ofString, Option.bind_some]

/-- Tables that differ in one run. -/
theorem view_eq_set {run : Option RunRecord}
    (h : ∀ id, t'.runAt id = if id = runId then run else t.runAt id) :
    t'.view = History.set runId run t.view := by
  funext id
  unfold History.set
  cases hid : id.string? with
  | some s =>
    obtain rfl := Text.string?_eq_some_iff.1 hid
    rw [view_ofString, view_ofString, h]
    exact if_congr Text.ofString_inj.symm rfl rfl
  | none =>
    have hne : id ≠ runId := by
      rintro rfl
      rw [Text.string?_ofString] at hid
      cases hid
    rw [if_neg hne, view, view, hid]
    rfl

/-- What is found in sound tables is what they stand for. -/
theorem getRun_eq_view {s : Store} (hseen : s.seen = some t) (h : t.Sound) (id : String) :
    s.getRun id = .ok (t.view id) := by
  unfold Store.getRun
  rw [hseen, view_ofString]
  show (Cell.ofText (.ofString id) >>= _) = _
  rw [Cell.ofText_ofString]
  refine congrArg Except.ok (Option.map_congr fun r hr => ?_)
  have hid : r.id = .text id := isRun_iff.1 (List.find?_some hr)
  unfold Store.runRecord recordWith jobRecords
  rw [hid, jobsOf_of_sound h]
  rfl

theorem hasRun_eq_isSome (t : Tables) (id : String) :
    t.hasRun (.text id) = (t.view id).isSome := by
  rw [view_ofString]
  unfold runAt hasRun
  rw [Option.isSome_map, Bool.eq_iff_iff, List.find?_isSome, List.any_eq_true]
  rfl

/-- A run that is not there has no jobs. -/
theorem jobRecords_eq_nil (h : t.Sound) (hno : t.hasRun (.text id) = false) :
    t.jobRecords id = [] := by
  have hnone : (t.jobs.filter fun j => (Cell.text id).meets j.runId) = [] := by
    refine List.filter_eq_nil_iff.2 fun j hj hmeets => ?_
    obtain ⟨r, hr, heq⟩ := h.jobRuns j hj
    have hrun : t.hasRun (.text id) = true :=
      hasRun_iff.2 ⟨Cell.noConfusion, r, hr, heq.trans (Cell.meets_text.1 hmeets)⟩
    rw [hno] at hrun
    cases hrun
  rw [jobRecords, hnone, List.map_nil]

/-- The records of the jobs of a run depend only on the rows of that run. -/
theorem jobRecords_congr {u : Tables}
    (hjobs : (u.jobs.filter fun j => (Cell.text id).meets j.runId) =
      t.jobs.filter fun j => (Cell.text id).meets j.runId)
    (hsteps : ∀ jobId, u.stepsOf (.text id) jobId = t.stepsOf (.text id) jobId) :
    u.jobRecords id = t.jobRecords id := by
  unfold jobRecords
  rw [hjobs]
  refine List.map_congr_left fun j hj => ?_
  have hrun : j.runId = .text id := Cell.meets_text.1 (List.mem_filter.1 hj).2
  simp only [Store.jobRecord, hrun, hsteps]

/-- A row that was not kept back is still found. -/
theorem filter_filter_of_imp {α : Type} {p q : α → Bool} {l : List α}
    (h : ∀ a, q a = true → p a = true) : (l.filter p).filter q = l.filter q := by
  rw [List.filter_filter]
  refine List.filter_congr fun a _ => ?_
  by_cases hq : q a = true
  · simp [hq, h a hq]
  · simp [hq]

/-! ### Changes of runs -/

/-- One run more. -/
theorem view_addRun (h : t.Sound) {r : RunRow} (hid : r.id = .text runId)
    (hno : t.hasRun (.text runId) = false) :
    view { t with runs := t.runs ++ [r] } =
      History.set runId (some (recordWith runId [] r)) t.view := by
  refine view_eq_set fun id => ?_
  have hjobs : jobRecords { t with runs := t.runs ++ [r] } id = t.jobRecords id := rfl
  unfold runAt
  rw [hjobs, List.find?_append]
  split
  · next heq =>
    subst heq
    have hnone : t.runs.find? (isRun id) = none := by
      rw [hasRun_eq_isSome, view_ofString, runAt, Option.isSome_map] at hno
      simpa using hno
    rw [hnone, jobRecords_eq_nil h hno, Option.none_or, List.find?_singleton,
      if_pos (isRun_iff.2 hid), Option.map_some]
  · next hne =>
    have hother : isRun id r = false := by
      rw [Bool.eq_false_iff, ne_eq, isRun_iff, hid, Cell.text.injEq]
      exact fun heq => hne heq.symm
    rw [List.find?_singleton, hother, if_neg Bool.false_ne_true, Option.or_none]

/-- A run with a new status and end. -/
def finish (r o : RunRow) : RunRow :=
  if r.id.meets o.id then { o with status := r.status, finishedAt := r.finishedAt } else o

theorem id_finish (r o : RunRow) : (finish r o).id = o.id := by
  unfold finish
  split <;> rfl

/-- One run with a new status and end. -/
theorem view_finish {r : RunRow} {run : RunRecord} (hid : r.id = .text runId)
    (hview : t.view runId = some run) :
    view { t with runs := t.runs.map (finish r) } =
      History.set runId (some { run with
        status := r.status.toValue
        finishedAt := Store.readTime r.finishedAt }) t.view := by
  rw [view_ofString] at hview
  refine view_eq_set fun id => ?_
  have hjobs : jobRecords { t with runs := t.runs.map (finish r) } id = t.jobRecords id := rfl
  have hsame : isRun id ∘ finish r = isRun id := by
    funext o
    show (Cell.text id).meets (finish r o).id = (Cell.text id).meets o.id
    rw [id_finish]
  unfold runAt
  rw [hjobs, List.find?_map, hsame, Option.map_map]
  split
  · next heq =>
    subst heq
    obtain ⟨o, ho, rfl⟩ := Option.map_eq_some_iff.1 hview
    have hfound : isRun id o = true := List.find?_some ho
    have hmeets : r.id.meets o.id = true := by
      rw [hid]
      exact hfound
    rw [ho, Option.map_some, Function.comp_apply, finish, if_pos hmeets]
    rfl
  · next hne =>
    refine Option.map_congr fun o ho => ?_
    have hmeets : ¬r.id.meets o.id = true := by
      rw [hid, Cell.meets_text, isRun_iff.1 (List.find?_some ho), Cell.text.injEq]
      exact hne
    rw [Function.comp_apply, finish, if_neg hmeets]

/-- One run less. -/
theorem view_deleteRun (t : Tables) (runId : String) :
    (t.deleteRun (.text runId)).view = History.set runId none t.view := by
  refine view_eq_set fun id => ?_
  split
  · next heq =>
    subst heq
    have hnone : (t.deleteRun (.text id)).runs.find? (isRun id) = none := by
      refine List.find?_eq_none.2 fun r hr => ?_
      have hother := (List.mem_filter.1 hr).2
      simpa [isRun] using hother
    rw [runAt, hnone, Option.map_none]
  · next hne =>
    -- Rows of another run are not those that are deleted.
    have hkeep : ∀ c : Cell, (Cell.text id).meets c = true → (!(Cell.text runId).meets c) =
        true := by
      intro c hc
      rw [Cell.meets_text.1 hc]
      simp [Cell.meets, Ne.symm hne]
    have hfind : (t.deleteRun (.text runId)).runs.find? (isRun id) =
        t.runs.find? (isRun id) := by
      show (t.runs.filter fun r => !(Cell.text runId).meets r.id).find? (isRun id) = _
      rw [← List.head?_filter, ← List.head?_filter, filter_filter_of_imp fun r hr =>
        hkeep r.id hr]
    have hjobs : (t.deleteRun (.text runId)).jobRecords id = t.jobRecords id :=
      jobRecords_congr (filter_filter_of_imp fun j hj => hkeep j.runId hj) fun jobId =>
        filter_filter_of_imp fun s hs => hkeep s.runId (Bool.and_eq_true_iff.1 hs).1
    rw [runAt, runAt, hfind, hjobs]

/-! ### Changes of jobs -/

/-- The tables after a job was recorded in place of any other with its id. -/
def rerecord (t : Tables) (runId : String) (j : JobRecord) : Tables :=
  let u := t.deleteJob (.text runId) j.jobId.cell
  { u with
    jobs := u.jobs ++ [j.stored runId (t.nextPosition (.text runId))]
    steps := u.steps ++ j.steps.map (StepRecord.stored runId j.jobId) }

variable {j : JobRecord}

/-- The steps of a job are added after its row. -/
theorem rerecord_bare (t : Tables) (runId : String) (j : JobRecord) :
    { t.rerecord runId j.bare with
      steps := (t.rerecord runId j.bare).steps ++
        j.steps.map (StepRecord.stored runId j.jobId) } = t.rerecord runId j := by
  simp [rerecord, JobRecord.bare, JobRecord.stored]

/-- A deleted job is not there. -/
theorem hasJob_deleteJob (t : Tables) (runId jobId : Cell) :
    (t.deleteJob runId jobId).hasJob runId jobId = false := by
  rw [Bool.eq_false_iff, ne_eq, hasJob, List.any_eq_true]
  rintro ⟨k, hk, hmeets⟩
  have hother := (List.mem_filter.1 hk).2
  rw [hmeets] at hother
  cases hother

theorem Sound.rerecord (h : t.Sound) (hj : j.Storable) (hrun : t.hasRun (.text runId) = true) :
    (t.rerecord runId j).Sound := by
  have hdeleted := h.deleteJob (.text runId) j.jobId.cell
  have hadded := hdeleted.addJob (j := j.stored runId (t.nextPosition (.text runId)))
    hj.jobId.cell_ne_null hrun (hasJob_deleteJob t _ _) fun k hk hsame =>
      position_lt_nextPosition (List.mem_filter.1 hk).1 hsame
  refine hadded.addSteps fun s hs => ?_
  obtain ⟨step, -, rfl⟩ := List.mem_map.1 hs
  exact ⟨_, List.mem_append_right _ List.mem_cons_self, rfl, rfl⟩

/-- A deleted job has no steps. -/
theorem stepsOf_deleteJob (t : Tables) (runId jobId : Cell) :
    (t.deleteJob runId jobId).stepsOf runId jobId = [] := by
  refine List.filter_eq_nil_iff.2 fun s hs hmeets => ?_
  have hother := (List.mem_filter.1 hs).2
  rw [hmeets] at hother
  cases hother

/-- The rows of the steps of a job are steps of that job. -/
theorem filter_stored (hj : j.Storable) :
    ((j.steps.map (StepRecord.stored runId j.jobId)).filter fun s =>
      (Cell.text runId).meets s.runId && j.jobId.cell.meets s.jobId) =
      j.steps.map (StepRecord.stored runId j.jobId) := by
  refine List.filter_eq_self.2 fun s hs => ?_
  obtain ⟨step, -, rfl⟩ := List.mem_map.1 hs
  exact Bool.and_eq_true_iff.2
    ⟨Cell.meets_text.2 rfl, Cell.meets_iff.2 ⟨hj.jobId.cell_ne_null, rfl⟩⟩

/-- They are no steps of another job, or of one of another run. -/
theorem filter_stored_other {jobId : Cell} (hne : ¬(id = runId ∧ jobId = j.jobId.cell)) :
    ((j.steps.map (StepRecord.stored runId j.jobId)).filter fun s =>
      (Cell.text id).meets s.runId && jobId.meets s.jobId) = [] := by
  refine List.filter_eq_nil_iff.2 fun s hs hmeets => ?_
  obtain ⟨step, -, rfl⟩ := List.mem_map.1 hs
  obtain ⟨hrun, hjob⟩ := Bool.and_eq_true_iff.1 hmeets
  have heq : runId = id := Cell.text.inj (Cell.meets_text.1 hrun)
  exact hne ⟨heq.symm, (Cell.meets_iff.1 hjob).2⟩

/-- Deleting a job leaves the steps of every other. -/
theorem stepsOf_deleteJob_other {jobId : Cell} (hne : ¬(id = runId ∧ jobId = j.jobId.cell)) :
    (t.deleteJob (.text runId) j.jobId.cell).stepsOf (.text id) jobId =
    t.stepsOf (.text id) jobId := by
  refine filter_filter_of_imp fun s hs => ?_
  obtain ⟨hrun, hjob⟩ := Bool.and_eq_true_iff.1 hs
  rw [Bool.not_eq_true', Bool.eq_false_iff, ne_eq, Bool.and_eq_true, Cell.meets_text,
    Cell.meets_iff, Cell.meets_text.1 hrun, Cell.text.injEq]
  rintro ⟨heq, -, hcell⟩
  exact hne ⟨heq, (Cell.meets_iff.1 hjob).2.trans hcell.symm⟩

/-- The steps of the job that was recorded. -/
theorem stepsOf_rerecord_self (hj : j.Storable) :
    (t.rerecord runId j).stepsOf (.text runId) j.jobId.cell =
      j.steps.map (StepRecord.stored runId j.jobId) := by
  show List.filter _ (_ ++ _) = _
  rw [List.filter_append, filter_stored hj]
  exact congrArg (· ++ _) (t.stepsOf_deleteJob _ _)

/-- The steps of another job, or of one of another run. -/
theorem stepsOf_rerecord_other {jobId : Cell} (hne : ¬(id = runId ∧ jobId = j.jobId.cell)) :
    (t.rerecord runId j).stepsOf (.text id) jobId = t.stepsOf (.text id) jobId := by
  show List.filter _ (_ ++ _) = _
  rw [List.filter_append, filter_stored_other hne, List.append_nil]
  exact stepsOf_deleteJob_other hne

/-- The record of a job has the id of another iff its row has. -/
theorem sameId_jobRecord (hj : j.Storable) (k : JobRow) :
    j.sameId (Store.jobRecord t true k) = j.jobId.cell.meets k.jobId := by
  obtain ⟨a, ha⟩ := hj.jobId
  unfold JobRecord.sameId
  rw [ha, Value.cell_ofString]
  show (match Value.text a, k.jobId.toValue with
    | .text a, .text b => decide (a = b)
    | _, _ => false) = (Cell.text a).meets k.jobId
  cases hk : k.jobId <;> simp [Cell.toValue, Cell.meets, Text.ofString_inj]

/-- **Recording a job removes any other with its id and adds the new one at the end.** -/
theorem jobRecords_rerecord_self (hj : j.Storable) :
    (t.rerecord runId j).jobRecords runId =
      ((t.jobRecords runId).filter fun k => !j.sameId k) ++ [j] := by
  have hrows : ((t.rerecord runId j).jobs.filter fun k => (Cell.text runId).meets k.runId) =
      ((t.jobs.filter fun k => (Cell.text runId).meets k.runId).filter
        fun k => !j.jobId.cell.meets k.jobId) ++
        [j.stored runId (t.nextPosition (.text runId))] := by
    have hself : (Cell.text runId).meets (j.stored runId (t.nextPosition (.text runId))).runId =
        true :=
      Cell.meets_text.2 rfl
    show List.filter _ (List.filter _ _ ++ _) = _
    rw [List.filter_append, List.filter_singleton, hself, cond_true, List.filter_filter,
      List.filter_filter]
    refine congrArg (· ++ _) (List.filter_congr fun k _ => ?_)
    cases (Cell.text runId).meets k.runId <;> simp
  have hlast : Store.jobRecord (t.rerecord runId j) true
      (j.stored runId (t.nextPosition (.text runId))) =
      j := by
    rw [Store.jobRecord_row hj, stepsOf_rerecord_self hj, List.map_map]
    have hsteps : j.steps.map (Store.stepRecord ∘ StepRecord.stored runId j.jobId) = j.steps :=
      (List.map_congr_left fun s hs => Store.stepRecord_row j.jobId (hj.steps s hs)).trans
        (List.map_id j.steps)
    rw [hsteps]
  have hids : (fun k => !j.sameId k) ∘ Store.jobRecord t true =
      fun k : JobRow => !j.jobId.cell.meets k.jobId := by
    funext k
    exact congrArg (!·) (sameId_jobRecord hj k)
  unfold jobRecords
  rw [hrows, List.map_append, List.map_singleton, hlast, List.filter_map, hids]
  refine congrArg (· ++ [j]) (List.map_congr_left fun k hk => ?_)
  obtain ⟨hk, hother⟩ := List.mem_filter.1 hk
  have hrun : k.runId = .text runId := Cell.meets_text.1 (List.mem_filter.1 hk).2
  have hne : k.jobId ≠ j.jobId.cell := by
    intro heq
    rw [heq, Cell.meets_iff.2 ⟨hj.jobId.cell_ne_null, rfl⟩] at hother
    cases hother
  simp only [Store.jobRecord, hrun, stepsOf_rerecord_other fun h => hne h.2]

/-- Recording a job changes no other run. -/
theorem jobRecords_rerecord_other (hne : id ≠ runId) :
    (t.rerecord runId j).jobRecords id = t.jobRecords id := by
  refine jobRecords_congr ?_ fun jobId => stepsOf_rerecord_other fun h => hne h.1
  have hself : (Cell.text id).meets (j.stored runId (t.nextPosition (.text runId))).runId =
      false := by
    rw [Bool.eq_false_iff, ne_eq, Cell.meets_text]
    exact fun heq => hne (Cell.text.inj heq).symm
  show List.filter _ (List.filter _ _ ++ _) = _
  rw [List.filter_append, List.filter_singleton, hself, cond_false, List.append_nil]
  refine filter_filter_of_imp fun k hk => ?_
  rw [Cell.meets_text.1 hk]
  simp [Cell.meets, Ne.symm hne]

/-- A job is recorded. -/
theorem view_rerecord (hj : j.Storable) {run : RunRecord} (hview : t.view runId = some run) :
    (t.rerecord runId j).view = History.set runId (some (History.withJob j run)) t.view := by
  rw [view_ofString] at hview
  refine view_eq_set fun id => ?_
  split
  · next heq =>
    subst heq
    obtain ⟨r, hr, rfl⟩ := Option.map_eq_some_iff.1 hview
    have hr' : (t.rerecord id j).runs.find? (isRun id) = some r := hr
    rw [runAt, hr', Option.map_some, jobRecords_rerecord_self hj]
    rfl
  · next hne =>
    rw [runAt, runAt, jobRecords_rerecord_other hne]
    rfl

end Tables

/-! ## Calls on stores and histories -/

namespace Store

variable {s : Store} {h : History} {t : Tables} {runId : String} {j : JobRecord}
    {run : RunRecord}

/-- A store keeps a history: its tables stand for it, and there is nothing that is not
committed. -/
def Keeps (s : Store) (h : History) : Prop :=
  ∃ t : Tables, s = ⟨some t, some t⟩ ∧ t.Sound ∧ t.view = h

section

variable {α β : Type} {a : StoreStep α} {k : α → StoreStep β} {name : String} {s' : Store}
  {f : Tables → Except StoreFault Tables} {t' : Tables} {fault : StoreFault}

theorem change_of_ok {o : Option Tables} (hf : f t = .ok t') :
    change name f ⟨o, some t⟩ = (.ok (), ⟨o, some t'⟩) := by
  simp [change, hf]

theorem change_of_error {o : Option Tables} (hf : f t = .error fault) :
    change name f ⟨o, some t⟩ = (.error fault, ⟨o, some t⟩) := by
  simp [change, hf]

theorem andThen_of_ok {x : α} (ha : a s = (.ok x, s')) : andThen a k s = k x s' := by
  simp [andThen, ha]

theorem andThen_of_error (ha : a s = (.error fault, s')) :
    andThen a k s = (.error fault, s') := by
  simp [andThen, ha]

end

/-- A row without an empty column. -/
theorem firstEmpty_eq_none {columns : List (String × Cell)} (hfull : ∀ c ∈ columns, c.2 ≠
    .null) :
    Tables.firstEmpty columns = none := by
  induction columns with
  | nil => rfl
  | cons c rest ih =>
    obtain ⟨column, cell⟩ := c
    have hcell : cell ≠ .null := hfull _ List.mem_cons_self
    rw [Tables.firstEmpty]
    · exact ih fun d hd => hfull d (List.mem_cons_of_mem _ hd)
    · exact fun _ heq => hcell (Prod.mk.inj heq).2

/-! ### Recording runs -/

/-- The row of a run that starts. -/
def startRow (runId : String) (branch : Option String) (startedAt : Stamp) : RunRow :=
  { id := .text runId
    status := .text "running"
    branch := (branch.map Cell.text).getD .null
    startedAt := .text startedAt.text
    finishedAt := .null }

theorem recordWith_startRow {startedAt : Stamp} (hvalid : startedAt.Valid) (runId : String)
    (branch : Option String) :
    Tables.recordWith runId [] (startRow runId branch startedAt) =
      History.started runId (branch.map .ofString) startedAt := by
  have htime : (Stamp.read startedAt.text).toOption = some startedAt := by
    rw [hvalid.read_text]
    rfl
  cases branch <;> simp [Tables.recordWith, startRow, History.started, htime, textValue,
      Cell.toValue,
    readTime]

/-- A call answers alike on a store and on a history, and afterwards the one keeps the other. -/
def Follows (s : Store) (h : History) (c : Call) : Prop :=
  (s.perform c).1 = (h.carryOut c).1 ∧ (s.perform c).2.Keeps (h.carryOut c).2

/-- A run that starts is inserted if its texts can be written. -/
theorem insertRun_ofString (t : Tables) (runId : String) (branch : Option String)
    (startedAt : Stamp) :
    (do
      let id ← Cell.ofText runId
      let branch ← ((branch.map Text.ofString).map Cell.ofText).getD (.ok .null)
      t.insertRun ⟨id, .text "running", branch, .text startedAt.text, .null⟩) =
      t.insertRun (startRow runId branch startedAt) := by
  cases branch <;> simp [startRow, bind, Except.bind]

/-- A run that is not there is started, also amid changes that are not committed yet. -/
theorem keeps_createRun_new (hsound : t.Sound) (hview : t.view runId = none) {startedAt : Stamp}
    (hvalid : startedAt.Valid) (o : Option Tables) (branch : Option String) :
    ∃ s', Store.createRun runId (branch.map .ofString) (some startedAt) ⟨o, some t⟩ =
        (.ok (), s') ∧
      s'.Keeps (History.set runId
        (some (History.started runId (branch.map .ofString) startedAt)) t.view) := by
  have hno : t.hasRun (.text runId) = false := by rw [t.hasRun_eq_isSome, hview]; rfl
  have hins : t.insertRun (startRow runId branch startedAt) =
      .ok { t with runs := t.runs ++ [startRow runId branch startedAt] } := by
    unfold Tables.insertRun
    rw [show t.hasRun (startRow runId branch startedAt).id = false from hno]
    rfl
  refine ⟨_, andThen_of_ok (change_of_ok ((insertRun_ofString ..).trans hins)), _, rfl,
    hsound.addRun Cell.noConfusion hno, ?_⟩
  rw [Tables.view_addRun hsound rfl hno, recordWith_startRow hvalid]

theorem Keeps.createRun (hk : s.Keeps h) {startedAt : Stamp} (hvalid : startedAt.Valid)
    (runId : String) (branch : Option String) :
    s.Follows h (.createRun runId (branch.map .ofString) startedAt) := by
  obtain ⟨t, rfl, hsound, rfl⟩ := hk
  unfold Follows
  simp only [perform, History.carryOut]
  cases hview : t.view runId with
  | some run =>
    have hrun : t.hasRun (startRow runId branch startedAt).id = true := by
      rw [show (startRow runId branch startedAt).id = .text runId from rfl,
        t.hasRun_eq_isSome, hview]
      rfl
    have hins : t.insertRun (startRow runId branch startedAt) = .error (.unique "runs.id") := by
      unfold Tables.insertRun
      rw [hrun]
      rfl
    have hcall : Store.createRun runId (branch.map .ofString) (some startedAt)
        ⟨some t, some t⟩ = (.error (.unique "runs.id"), ⟨some t, some t⟩) :=
      andThen_of_error (change_of_error ((insertRun_ofString ..).trans hins))
    rw [hcall]
    exact ⟨rfl, t, rfl, hsound, rfl⟩
  | none =>
    obtain ⟨s', hcall, hkeeps⟩ := keeps_createRun_new hsound hview hvalid (some t) branch
    rw [hcall]
    exact ⟨rfl, hkeeps⟩

/-- The record of the row of a run is that run, with the jobs that the tables have for it. -/
theorem recordWith_row {run : RunRecord} (hd : run.Storable) (hid : run.runId = .text runId)
    (jobs : List JobRecord) : Tables.recordWith runId jobs run.stored =
    { run with jobs := jobs } := by
  simp [Tables.recordWith, RunRecord.stored, hid, hd.status.orNull.toValue, hd.branch.toValue,
    readTime_timeCell hd.startedAt, readTime_timeCell hd.finishedAt]

theorem Keeps.completeRun (hk : s.Keeps h) (hd : run.Storable) :
    s.Follows h (.completeRun run) := by
  obtain ⟨t, rfl, hsound, rfl⟩ := hk
  obtain ⟨runId, hid⟩ := hd.runId
  have hrowId : run.stored.id = .text runId := by
    rw [RunRecord.stored, hid, Value.cell_ofString]
  have hstatus : Tables.firstEmpty [("runs.status", run.stored.status)] = none :=
    firstEmpty_eq_none (by simpa [RunRecord.stored] using hd.status.cell_ne_null)
  have hrun : t.hasRun run.stored.id = (t.view runId).isSome := by
    rw [hrowId, t.hasRun_eq_isSome]
  -- Either the row is new, or the one that is there gets a new status and end.
  obtain ⟨t', hups, hsound', hview'⟩ : ∃ t', t.upsertRun run.stored = .ok t' ∧ t'.Sound ∧
      t'.view = History.set runId (some (History.finished run (t.view runId))) t.view := by
    unfold Tables.upsertRun
    rw [hstatus, hrun]
    cases hview : t.view runId with
    | none =>
      have hno : t.hasRun (.text runId) = false := by rw [t.hasRun_eq_isSome, hview]; rfl
      refine ⟨_, rfl, hsound.addRun (by rw [hrowId]; exact Cell.noConfusion) (by rwa [hrowId]),
        ?_⟩
      rw [Tables.view_addRun hsound hrowId hno, recordWith_row hd hid]
      rfl
    | some old =>
      refine ⟨_, rfl, hsound.mapRuns (Tables.id_finish run.stored), ?_⟩
      have hfields : run.stored.status.toValue = run.status ∧
          readTime run.stored.finishedAt = run.finishedAt :=
        ⟨hd.status.orNull.toValue, readTime_timeCell hd.finishedAt⟩
      have hfinish := Tables.view_finish hrowId hview
      rw [hfields.1, hfields.2] at hfinish
      exact hfinish
  have hcall : Store.completeRun run ⟨some t, some t⟩ = (.ok (), commit ⟨some t, some t'⟩) := by
    refine andThen_of_ok (change_of_ok ?_)
    rw [runRow_eq hd]
    exact hups
  unfold Follows
  simp only [perform, History.carryOut, hid]
  rw [hcall]
  exact ⟨rfl, t', rfl, hsound', hview'⟩

theorem Keeps.deleteRun (hk : s.Keeps h) (runId : String) : s.Follows h (.deleteRun runId) := by
  obtain ⟨t, rfl, hsound, rfl⟩ := hk
  have hcall : Store.deleteRun runId ⟨some t, some t⟩ =
      (.ok (t.hasRun (.text runId)),
        commit ⟨some t, some (t.deleteRun (.text runId))⟩) := by
    simp only [Store.deleteRun, Cell.ofText_ofString]
  unfold Follows
  simp only [perform, History.carryOut]
  rw [hcall, t.hasRun_eq_isSome]
  exact ⟨rfl, _, rfl, hsound.deleteRun _, t.view_deleteRun runId⟩

/-! ### Recording jobs -/

/-- The steps of a job that is there are inserted one after another. -/
theorem insertSteps_eq {o : Option Tables} {jobId : Value} (hjobId : jobId.IsString)
    {steps : List StepRecord} (hsteps : ∀ s ∈ steps, s.Storable)
    (hjob : t.hasJob (.text runId) jobId.cell = true) :
    insertSteps runId jobId steps ⟨o, some t⟩ =
      (.ok (), ⟨o, some { t with steps := t.steps ++ steps.map (StepRecord.stored runId jobId)
          }⟩) := by
  induction steps generalizing t with
  | nil => simp [insertSteps]
  | cons step rest ih =>
    have hstep := hsteps step List.mem_cons_self
    have hfull : Tables.firstEmpty
        [("steps.run_id", (step.stored runId jobId).runId),
         ("steps.job_id", (step.stored runId jobId).jobId),
         ("steps.step_index", (step.stored runId jobId).index),
         ("steps.display_name", (step.stored runId jobId).displayName),
         ("steps.status", (step.stored runId jobId).status),
         ("steps.duration_ms", (step.stored runId jobId).durationMs),
         ("steps.output", (step.stored runId jobId).output)] = none := by
      refine firstEmpty_eq_none ?_
      simp [StepRecord.stored, hjobId.cell_ne_null, hstep.index.cell_ne_null,
        hstep.displayName.cell_ne_null, hstep.status.cell_ne_null, hstep.durationMs.cell_ne_null,
        hstep.output.cell_ne_null]
    have hins : t.insertStep (step.stored runId jobId) =
        .ok { t with steps := t.steps ++ [step.stored runId jobId] } := by
      rw [Tables.insertStep, hfull]
      exact if_pos hjob
    have hchange : change "steps"
        (fun tables => do tables.insertStep (← stepRow runId jobId step))
        ⟨o, some t⟩ =
          (.ok (), ⟨o, some { t with steps := t.steps ++ [step.stored runId jobId] }⟩) := by
      refine change_of_ok ?_
      rw [stepRow_eq hstep hjobId]
      exact hins
    have hrest := ih (t := { t with steps := t.steps ++ [step.stored runId jobId] })
      (fun s hs => hsteps s (List.mem_cons_of_mem _ hs)) hjob
    rw [insertSteps, andThen_of_ok hchange, hrest]
    simp

theorem position_eq (o : Option Tables) (t : Tables) (runId : String) :
    position runId ⟨o, some t⟩ = (.ok (t.nextPosition (.text runId)), ⟨o, some t⟩) := by
  simp only [position, Cell.ofText_ofString, Except.map]

/-- What was recorded of a job is removed. -/
theorem forgetJob_eq {o : Option Tables} {jobId : Value} (hjobId : jobId.IsString) :
    forgetJob runId jobId ⟨o, some t⟩ =
      (.ok (), ⟨o, some (t.deleteJob (.text runId) jobId.cell)⟩) := by
  refine change_of_ok ?_
  rw [Cell.ofText_ofString, hjobId.orNull.ofValue]
  show Except.ok (t.deleteJob (.text runId) jobId.cell.asText) = _
  rw [hjobId.orNull.asText]

/-- A job has no empty column that must not be empty. -/
theorem firstEmpty_jobRow (hj : j.Storable) (position : Int) :
    Tables.firstEmpty [("jobs.run_id", (j.stored runId position).runId),
      ("jobs.job_id", (j.stored runId position).jobId),
      ("jobs.status", (j.stored runId position).status)] =
      none := by
  refine firstEmpty_eq_none ?_
  simp [JobRecord.stored, hj.jobId.cell_ne_null, hj.status.cell_ne_null]

/-- What was recorded of a job of a run that is there is removed, and its row is inserted. -/
theorem insertJob_eq {o : Option Tables} (hj : j.bare.Storable)
    (hrun : t.hasRun (.text runId) = true) :
    change "jobs" (fun tables => do
        tables.insertJob (← jobRow runId (t.nextPosition (.text runId)) j))
      ⟨o, some (t.deleteJob (.text runId) j.jobId.cell)⟩ =
      (.ok (), ⟨o, some (t.rerecord runId j.bare)⟩) := by
  let u := t.deleteJob (.text runId) j.jobId.cell
  let row := j.stored runId (t.nextPosition (.text runId))
  have hrow : jobRow runId (t.nextPosition (.text runId)) j.bare = .ok row := jobRow_eq hj
  have hno : u.hasJob row.runId row.jobId = false := Tables.hasJob_deleteJob t _ _
  have hrun : u.hasRun row.runId = true := hrun
  have hfull : Tables.firstEmpty [("jobs.run_id", row.runId), ("jobs.job_id", row.jobId),
      ("jobs.status", row.status)] = none := firstEmpty_jobRow hj _
  have hins : u.insertJob row = .ok (t.rerecord runId j.bare) := by
    rw [Tables.insertJob, hfull, hno, hrun, Tables.rerecord, show j.bare.steps = [] from rfl,
      List.map_nil, List.append_nil]
    rfl
  refine change_of_ok ?_
  rw [show jobRow runId (t.nextPosition (.text runId)) j = .ok row from hrow]
  exact hins

/-- A job of a run that is there is recorded. -/
theorem recordJob_of_hasRun (hj : j.Storable) (hrun : t.hasRun (.text runId) = true) :
    Store.recordJob runId j ⟨some t, some t⟩ =
      (.ok (), ⟨some (t.rerecord runId j), some (t.rerecord runId j)⟩) := by
  have hjob : (t.rerecord runId j.bare).hasJob (.text runId) j.jobId.cell =
      true :=
    Tables.hasJob_iff.2 ⟨Cell.noConfusion, hj.jobId.cell_ne_null, _,
      List.mem_append_right _ List.mem_cons_self, rfl, rfl⟩
  have hsteps := insertSteps_eq (o := some t) hj.jobId hj.steps hjob
  unfold Store.recordJob
  rw [andThen_of_ok (position_eq _ t runId), andThen_of_ok (forgetJob_eq hj.jobId),
    andThen_of_ok (insertJob_eq hj.bare hrun), andThen_of_ok hsteps, Tables.rerecord_bare]
  rfl

/-- A job is refused if its first step cannot be written. What was recorded of it is removed by
then, and the job is there without its steps. -/
theorem recordJob_of_error {step : StepRecord} {rest : List StepRecord} {fault : StoreFault}
    (hj : j.bare.Storable) (hsteps : j.steps = step :: rest)
    (hstep : stepRow runId j.jobId step = .error fault)
    (hrun : t.hasRun (.text runId) = true) :
    Store.recordJob runId j ⟨some t, some t⟩ =
      (.error fault, ⟨some t, some (t.rerecord runId j.bare)⟩) := by
  have hinsert : insertSteps runId j.jobId j.steps
      ⟨some t, some (t.rerecord runId j.bare)⟩ =
      (.error fault, ⟨some t, some (t.rerecord runId j.bare)⟩) := by
    rw [hsteps, insertSteps]
    refine andThen_of_error (change_of_error ?_)
    rw [hstep]
    rfl
  have hjobId : j.jobId.IsString := hj.jobId
  unfold Store.recordJob
  rw [andThen_of_ok (position_eq _ t runId), andThen_of_ok (forgetJob_eq hjobId),
    andThen_of_ok (insertJob_eq hj hrun), andThen_of_error hinsert]

/-- A job of a run that is not there is refused, and nothing changes. -/
theorem recordJob_of_not_hasRun (hsound : t.Sound) (hj : j.Storable)
    (hrun : t.hasRun (.text runId) = false) :
    Store.recordJob runId j ⟨some t, some t⟩ = (.error .dangling, ⟨some t, some t⟩) := by
  have hjobs : ∀ k ∈ t.jobs, (Cell.text runId).meets k.runId = false := by
    intro k hk
    rw [Bool.eq_false_iff]
    intro hmeets
    obtain ⟨r, hr, heq⟩ := hsound.jobRuns k hk
    have hthere : t.hasRun (.text runId) = true :=
      Tables.hasRun_iff.2 ⟨Cell.noConfusion, r, hr, heq.trans (Cell.meets_text.1 hmeets)⟩
    rw [hrun] at hthere
    cases hthere
  -- Nothing is recorded of a job of that run, so nothing is removed.
  have hdelete : t.deleteJob (.text runId) j.jobId.cell = t := by
    have hjobRows : (t.jobs.filter fun k =>
        !((Cell.text runId).meets k.runId && j.jobId.cell.meets k.jobId)) = t.jobs :=
      List.filter_eq_self.2 fun k hk => by rw [hjobs k hk]; rfl
    have hstepRows : (t.steps.filter fun s =>
        !((Cell.text runId).meets s.runId && j.jobId.cell.meets s.jobId)) = t.steps := by
      refine List.filter_eq_self.2 fun s hs => ?_
      obtain ⟨k, hk, heq, -⟩ := hsound.stepJobs s hs
      rw [← heq, hjobs k hk]
      rfl
    unfold Tables.deleteJob
    rw [hjobRows, hstepRows]
  let row := j.stored runId (t.nextPosition (.text runId))
  have hins : t.insertJob row = .error .dangling := by
    have hno : t.hasJob row.runId row.jobId = false := by
      rw [← hdelete]
      exact Tables.hasJob_deleteJob t _ _
    have hrun : t.hasRun row.runId = false := hrun
    rw [Tables.insertJob, firstEmpty_jobRow hj, hno, hrun]
    rfl
  have hchange : change "jobs" (fun tables => do
      tables.insertJob (← jobRow runId (t.nextPosition (.text runId)) j)) ⟨some t, some t⟩ =
      (.error .dangling, ⟨some t, some t⟩) := by
    refine change_of_error ?_
    rw [jobRow_eq hj]
    exact hins
  have hforget : forgetJob runId j.jobId ⟨some t, some t⟩ = (.ok (), ⟨some t, some t⟩) := by
    rw [forgetJob_eq hj.jobId, hdelete]
  unfold Store.recordJob
  rw [andThen_of_ok (position_eq _ t runId), andThen_of_ok hforget, andThen_of_error hchange]

theorem Keeps.recordJob (hk : s.Keeps h) (hj : j.Storable) (runId : String) :
    s.Follows h (.recordJob runId j) := by
  obtain ⟨t, rfl, hsound, rfl⟩ := hk
  have hrun := t.hasRun_eq_isSome runId
  unfold Follows
  simp only [perform, History.carryOut]
  cases hview : t.view runId with
  | none =>
    rw [hview] at hrun
    rw [recordJob_of_not_hasRun hsound hj hrun]
    exact ⟨rfl, t, rfl, hsound, rfl⟩
  | some run =>
    rw [hview] at hrun
    rw [recordJob_of_hasRun hj hrun]
    exact ⟨rfl, _, rfl, hsound.rerecord hj hrun, Tables.view_rerecord hj hview⟩

/-! ### All calls -/

/-- No run is looked for under an id that cannot be written. -/
theorem getRun_of_unencodable (hseen : s.seen = some t) {id : Text} (hid : id.string? = none) :
    s.getRun id = .error (.unencodable id) := by
  unfold Store.getRun Cell.ofText
  rw [hseen, hid]
  rfl

/-- A call with a text that cannot be written is refused, and has no effect. -/
theorem perform_of_unencodable {c : Call} (hc : c.Declared) {text : Text}
    (h : c.unencodable? = some text) (o : Option Tables) :
    perform c ⟨o, some t⟩ = (.refused (.unencodable text), ⟨o, some t⟩) := by
  have honly : ∀ {runId : Text}, Text.firstUnencodable [runId] = some text →
      Cell.ofText runId = .error (.unencodable text) := by
    intro runId hone
    cases hid : runId.string? with
    | none =>
      obtain rfl : runId = text := by simpa [Text.firstUnencodable, hid] using hone
      rw [Cell.ofText, hid]
    | some id => simp [Text.firstUnencodable, hid] at hone
  cases c with
  | createRun runId branch startedAt =>
    have hins : (do
        let id ← Cell.ofText runId
        let branch ← (branch.map Cell.ofText).getD (.ok .null)
        t.insertRun ⟨id, .text "running", branch, .text startedAt.text, .null⟩) =
        .error (.unencodable text) := by
      cases hid : runId.string? with
      | none =>
        obtain rfl : runId = text := by
          simpa [Call.unencodable?, Call.texts, Text.firstUnencodable, hid] using h
        rw [Cell.ofText, hid]
        rfl
      | some id =>
        have hbranch : Text.firstUnencodable branch.toList = some text := by
          simpa [Call.unencodable?, Call.texts, Text.firstUnencodable, hid] using h
        rw [Cell.ofText, hid]
        cases branch with
        | none => cases hbranch
        | some name => simp only [Option.map_some, Option.getD_some, honly hbranch]; rfl
    have hcall : Store.createRun runId branch (some startedAt) ⟨o, some t⟩ =
        (.error (.unencodable text), ⟨o, some t⟩) :=
      andThen_of_error (change_of_error hins)
    simp only [perform, hcall, Answer.ofExcept]
  | recordJob runId job =>
    have hcall : Store.recordJob runId job ⟨o, some t⟩ =
        (.error (.unencodable text), ⟨o, some t⟩) :=
      andThen_of_error (by simp only [position, honly h, Except.map])
    simp only [perform, hcall, Answer.ofExcept]
  | completeRun run =>
    have hvalues : ∀ v ∈ [run.runId, run.status, run.branch], v.IsTextOrNull := by
      simp only [List.forall_mem_cons]
      exact ⟨.inr hc.runId, .inr hc.status, hc.branch, List.forall_mem_nil _⟩
    have hrow : (do t.upsertRun (← runRow run)) = .error (.unencodable text) := by
      rw [runRow, Value.ofValues_eq_error hvalues h]
      rfl
    have hcall : Store.completeRun run ⟨o, some t⟩ =
        (.error (.unencodable text), ⟨o, some t⟩) :=
      andThen_of_error (change_of_error hrow)
    simp only [perform, hcall, Answer.ofExcept]
  | deleteRun runId => simp only [perform, Store.deleteRun, honly h, Answer.ofExcept]
  | getRun runId =>
    have hget : Store.getRun ⟨o, some t⟩ runId = .error (.unencodable text) := by
      rw [Store.getRun, honly h]
      rfl
    simp only [perform, hget, Answer.ofExcept]
  | reopen => cases h

/-- **Each call answers alike on a store and on the history that it keeps**, if its texts can be
written. -/
theorem Keeps.follows (hk : s.Keeps h) {c : Call} (hc : c.Declared)
    (hall : c.unencodable? = none) : s.Follows h c := by
  cases c with
  | createRun runId branch startedAt =>
    obtain ⟨id, rfl⟩ := Text.firstUnencodable_eq_none.1 hall _ List.mem_cons_self
    obtain ⟨name, rfl⟩ : ∃ name : Option String, branch = name.map .ofString := by
      cases branch with
      | none => exact ⟨none, rfl⟩
      | some name =>
        obtain ⟨s, rfl⟩ :=
          Text.firstUnencodable_eq_none.1 hall _ (List.mem_cons_of_mem _ List.mem_cons_self)
        exact ⟨some s, rfl⟩
    exact hk.createRun hc id name
  | recordJob runId job =>
    obtain ⟨id, rfl⟩ := Text.firstUnencodable_eq_none.1 hall _ List.mem_cons_self
    exact hk.recordJob hc id
  | completeRun run => exact hk.completeRun (hc.storable hall)
  | deleteRun runId =>
    obtain ⟨id, rfl⟩ := Text.firstUnencodable_eq_none.1 hall _ List.mem_cons_self
    exact hk.deleteRun id
  | getRun runId =>
    obtain ⟨id, rfl⟩ := Text.firstUnencodable_eq_none.1 hall _ List.mem_cons_self
    obtain ⟨t, rfl, hsound, rfl⟩ := hk
    refine ⟨?_, t, rfl, hsound, rfl⟩
    show Answer.ofExcept .found (getRun ⟨some t, some t⟩ id) = .found (t.view id)
    rw [Tables.getRun_eq_view rfl hsound]
    rfl
  | reopen =>
    obtain ⟨t, rfl, hsound, rfl⟩ := hk
    exact ⟨rfl, t, rfl, hsound, rfl⟩

/-- **Each call answers alike on a store and on the history that it keeps.** -/
theorem Keeps.perform (hk : s.Keeps h) {c : Call} (hc : c.Declared) :
    (s.perform c).1 = (h.perform c).1 ∧ (s.perform c).2.Keeps (h.perform c).2 := by
  rw [History.perform]
  cases hall : c.unencodable? with
  | none => exact hk.follows hc hall
  | some text =>
    obtain ⟨t, rfl, hkept⟩ := hk
    rw [perform_of_unencodable hc hall]
    exact ⟨rfl, t, rfl, hkept⟩

theorem inTurn_cons {σ : Type} {step : Call → σ → Answer × σ} {c : Call} {s s' : σ} {a : Answer}
    (h : step c s = (a, s')) (rest : List Call) :
    Store.inTurn step (c :: rest) s =
      (a :: (Store.inTurn step rest s').1, (Store.inTurn step rest s').2) := by
  rw [Store.inTurn, h]

theorem Keeps.inTurn (hk : s.Keeps h) {calls : List Call} (hcalls : ∀ c ∈ calls, c.Declared) :
    (Store.inTurn Store.perform calls s).1 = (Store.inTurn History.perform calls h).1 ∧
      (Store.inTurn Store.perform calls s).2.Keeps (Store.inTurn History.perform calls h).2 := by
  induction calls generalizing s h with
  | nil => exact ⟨rfl, hk⟩
  | cons c rest ih =>
    obtain ⟨hanswer, hkept⟩ := hk.perform (hcalls c List.mem_cons_self)
    obtain ⟨hanswers, hlast⟩ := ih hkept fun d hd => hcalls d (List.mem_cons_of_mem c hd)
    exact ⟨congrArg₂ List.cons hanswer hanswers, hlast⟩

theorem keeps_blank : Store.empty.createTables.Keeps .blank := by
  refine ⟨.blank, rfl, Tables.sound_blank, funext fun id => ?_⟩
  rw [Tables.view]
  cases id.string? <;> rfl

/-- **The store is a map.** Over every sequence of calls, a store that started with empty tables
answers like a map from ids to runs, where a call with a text that cannot be written is refused
and has no effect; jobs have to be storable. Afterwards each recorded run is found under its id,
all changes last, and the tables fit together. -/
theorem answers_perform {calls : List Call} (hcalls : ∀ c ∈ calls, c.Declared) :
    (inTurn perform calls Store.empty.createTables).1 =
        (inTurn History.perform calls .blank).1 ∧
      (∀ id : String, (inTurn perform calls Store.empty.createTables).2.getRun id =
        .ok ((inTurn History.perform calls .blank).2 id)) ∧
      ∃ t : Tables, (inTurn perform calls Store.empty.createTables).2 = ⟨some t, some t⟩ ∧
      t.Sound := by
  obtain ⟨hanswers, t, hstore, hsound, hview⟩ := keeps_blank.inTurn hcalls
  refine ⟨hanswers, fun id => ?_, t, hstore, hsound⟩
  rw [Tables.getRun_eq_view (by rw [hstore]) hsound, hview]

/-- Noon of a day in spring, in universal time. -/
def springNoon : Stamp := ⟨⟨2024, 5, 1⟩, 12, 0, 0, 250000, some 0⟩

theorem valid_springNoon : springNoon.Valid :=
  ⟨rfl, by decide, by decide, by decide, by decide, by rintro o ⟨⟩; decide⟩

/-- A job with one step that exited with a code. -/
def exitedJob (id : Text) (code : Int) : JobRecord :=
  { jobId := .text id
    status := .text (.ofString (if code = 0 then "success" else "failed"))
    steps := [⟨.int 0, .text "build", .text "failed", .int code, .int 1500, .text "log", true⟩]
    templateName := .text id
    variant := .null
    startedAt := some springNoon
    finishedAt := some springNoon }

theorem storable_exitedJob (id : String) {code : Int} (hcode : Cell.fits code = true) :
    (exitedJob id code).Storable where
  jobId := ⟨_, rfl⟩
  status := ⟨_, rfl⟩
  steps s hs := by
    obtain rfl := List.mem_singleton.1 hs
    exact ⟨⟨0, rfl, rfl⟩, ⟨_, rfl⟩, ⟨_, rfl⟩, .inr ⟨code, rfl, hcode⟩, ⟨1500, rfl, rfl⟩,
      ⟨_, rfl⟩⟩
  templateName := .inr ⟨_, rfl⟩
  variant := .inl rfl
  startedAt t ht := by cases ht; exact valid_springNoon
  finishedAt t ht := by cases ht; exact valid_springNoon

/-- The end of a run. -/
def failedRun (id : String) : RunRecord :=
  ⟨.text id, .text "failed", [], .null, none, some springNoon⟩

theorem declared_failedRun (id : String) : (failedRun id).Declared :=
  ⟨⟨_, rfl⟩, ⟨_, rfl⟩, .inl rfl, nofun, by rintro t ⟨⟩; exact valid_springNoon⟩

/-- A run with two jobs, of which the first is recorded once more. -/
def rerecordedCalls : List Call :=
  [.createRun "r" (some "main") springNoon, .recordJob "r" (exitedJob "a" 1),
   .recordJob "r" (exitedJob "b" 2), .recordJob "r" (exitedJob "a" 0),
   .completeRun (failedRun "r"),
   .createRun "r" none springNoon, .recordJob "s" (exitedJob "a" 1), .reopen, .getRun "r",
   .deleteRun "r", .getRun "r"]

/-- The job that was recorded once more stands last, and is gone with its run. -/
theorem answers_perform_rerecorded :
    (∀ c ∈ rerecordedCalls, c.Declared) ∧
      (inTurn perform rerecordedCalls Store.empty.createTables).1 =
        [.done, .done, .done, .done, .done, .refused (.unique "runs.id"),
         .refused .dangling, .done,
         .found (some ⟨.text "r", .text "failed", [exitedJob "b" 2, exitedJob "a" 0],
             .text "main",
           some springNoon, some springNoon⟩),
         .existed true, .found none] := by
  have hcalls : ∀ c ∈ rerecordedCalls, c.Declared := by
    simp [rerecordedCalls, Call.Declared, valid_springNoon, storable_exitedJob,
        declared_failedRun,
      Cell.fits, Cell.wordBound]
  exact ⟨hcalls, (answers_perform hcalls).1.trans rfl⟩

/-- A surrogate that stands by itself. -/
def loneSurrogate : Text := .ofList [.lone ⟨0, by decide⟩]

/-- A job whose step has a name that cannot be written. -/
def loneNamedRecord : JobRecord :=
  { exitedJob "a" 0 with
    steps :=
      [⟨.int 0, .text loneSurrogate, .text "success", .int 0, .int 1500, .text "", false⟩] }

/-- Runs and jobs with texts that cannot be written. -/
def loneCalls : List Call :=
  [.createRun loneSurrogate none springNoon, .createRun "r" none springNoon,
   .recordJob "r" (exitedJob "a" 1), .recordJob "r" loneNamedRecord, .getRun "r"]

/-- A map has the run, and has the job with its step in place of what was recorded before. The
store refuses both; what was recorded before of the job is gone then, and the job stands there
without its step. -/
theorem loneCalls_refused :
    (inTurn History.carryOut loneCalls .blank).1 =
        [.done, .done, .done, .done, .found (some ⟨.text "r", .text "running", [loneNamedRecord],
          .null, some springNoon, none⟩)] ∧
      (inTurn perform loneCalls Store.empty.createTables).1 =
        [.refused (.unencodable loneSurrogate), .done, .done,
         .refused (.unencodable loneSurrogate),
         .found (some ⟨.text "r", .text "running", [loneNamedRecord.bare],
          .null, some springNoon, none⟩)] := by
  have hlone : perform (.createRun loneSurrogate none springNoon) Store.empty.createTables =
      (.refused (.unencodable loneSurrogate), Store.empty.createTables) :=
    perform_of_unencodable (c := .createRun loneSurrogate none springNoon) valid_springNoon rfl
      (some .blank)
  obtain ⟨s, hstarted, hkeeps⟩ : ∃ s, perform (.createRun "r" none springNoon)
      Store.empty.createTables = (.done, s) ∧ s.Keeps _ := by
    obtain ⟨hanswer, hkeeps⟩ := keeps_blank.createRun valid_springNoon "r" none
    exact ⟨_, Prod.ext hanswer rfl, hkeeps⟩
  obtain ⟨t, hrecorded, hsound, hview⟩ : ∃ t : Tables, perform
      (.recordJob "r" (exitedJob "a" 1)) s = (.done, ⟨some t, some t⟩) ∧ t.Sound ∧
        t.view = _ := by
    obtain ⟨hanswer, t, hstore, hkept⟩ :=
      hkeeps.recordJob (storable_exitedJob "a" (show Cell.fits 1 = true from rfl)) "r"
    exact ⟨t, Prod.ext hanswer hstore, hkept⟩
  have hstorable : loneNamedRecord.bare.Storable :=
    (storable_exitedJob "a" (show Cell.fits 0 = true from rfl)).bare
  have hrun : t.hasRun (.text "r") = true := by
    rw [t.hasRun_eq_isSome, hview]
    rfl
  have hcall : Store.recordJob "r" loneNamedRecord ⟨some t, some t⟩ =
      (.error (.unencodable loneSurrogate),
        ⟨some t, some (t.rerecord "r" loneNamedRecord.bare)⟩) :=
    recordJob_of_error hstorable rfl rfl hrun
  have hrefused : perform (.recordJob "r" loneNamedRecord) ⟨some t, some t⟩ =
      (.refused (.unencodable loneSurrogate),
        ⟨some t, some (t.rerecord "r" loneNamedRecord.bare)⟩) := by
    simp only [perform, hcall, Answer.ofExcept]
  have hfound : perform (.getRun "r") ⟨some t, some (t.rerecord "r" loneNamedRecord.bare)⟩ =
      (.found (some ⟨.text "r", .text "running", [loneNamedRecord.bare], .null, some springNoon,
        none⟩), ⟨some t, some (t.rerecord "r" loneNamedRecord.bare)⟩) := by
    rw [perform, Tables.getRun_eq_view rfl (hsound.rerecord hstorable hrun),
      Tables.view_rerecord hstorable (by rw [hview]; rfl), hview]
    rfl
  refine ⟨rfl, ?_⟩
  rw [loneCalls, inTurn_cons hlone, inTurn_cons hstarted, inTurn_cons hrecorded,
    inTurn_cons hrefused, inTurn_cons hfound]
  rfl

end Store

end Conveyor
