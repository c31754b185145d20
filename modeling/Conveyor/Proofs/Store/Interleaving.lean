import Conveyor.Proofs.Fallible
import Conveyor.Proofs.Store.History

/-!
# Recording jobs at the same time

Recording a job takes several statements, and other calls may come between any two of them. The
jobs of a run are recorded while others are, and all of them share one connection.

- `Errand`: a call as the statements that are left of it; `Store.recording`, and
  `Store.run_recording`: without anything between its statements it is `Store.recordJob`.
- `Interleaved`: calls whose statements come in any order, but those of one call in their own.
- `Store.Stage`, `Store.Amid`: how far the calls are, and what the tables have of their jobs
  meanwhile.
- `Store.interleaved_recordings`: **all calls succeed, and the run has every job once, with all
  its steps**.
- `Store.shared_position`: two jobs may get the same position, since each call asks before it
  inserts.
-/

namespace Conveyor

/-! ## Calls statement by statement -/

/-- What is left of a call: its answer, or a statement and what comes after it. Both depend on
the store that the statement finds. -/
inductive Errand where
  | answered (answer : Except StoreFault Unit)
  | statement (effect : Store → Store) (next : Store → Errand)

namespace Errand

/-- A statement, and how the call goes on from its result. A fault ends the call. -/
def of {α : Type} (step : StoreStep α) (k : α → Errand) : Errand :=
  .statement (fun s => (step s).2) fun s =>
    match (step s).1 with
    | .ok x => k x
    | .error fault => .answered (.error fault)

/-- All that is left of a call, with nothing between its statements. -/
def run : Errand → StoreStep Unit
  | answered answer, s => (answer, s)
  | statement effect next, s => (next s).run (effect s)

theorem run_of {α : Type} (step : StoreStep α) (k : α → Errand) :
    (of step k).run = Store.andThen step fun x => (k x).run := by
  funext s
  rw [of, run, Store.andThen]
  rcases step s with ⟨x | x, s'⟩
  · rfl
  · rfl

/-- A statement that succeeds, and what comes after it. -/
theorem of_eq_statement {α : Type} {step : StoreStep α} {k : α → Errand} {effect : Store → Store}
    {next : Store → Errand} (h : of step k = .statement effect next) {s s' : Store} {x : α}
    (hs : step s = (.ok x, s')) : effect s = s' ∧ next s = k x := by
  cases h
  exact ⟨congrArg Prod.snd hs, by simp only [hs]⟩

/-- The answer of a call that is over. -/
def answer? : Errand → Option (Except StoreFault Unit)
  | answered answer => some answer
  | statement .. => none

/-- Calls that all have answers are over. -/
theorem eq_map_answered {es : List Errand} {answers : List (Except StoreFault Unit)}
    (h : es.map answer? = answers.map some) : es = answers.map answered := by
  induction es generalizing answers with
  | nil =>
    obtain rfl := List.map_eq_nil_iff.1 h.symm
    rfl
  | cons e es ih =>
    obtain ⟨a, rest, rfl, ha, hrest⟩ := List.map_eq_cons_iff.1 h.symm
    rw [ih hrest.symm, List.map_cons]
    cases e with
    | answered b =>
      cases ha
      rfl
    | statement effect next => cases ha

end Errand

/-- The calls go on until all of them are over, in any order, one statement at a time. -/
inductive Interleaved : List Errand → Store → List (Except StoreFault Unit) → Store → Prop
  | answered (answers : List (Except StoreFault Unit)) (s : Store) :
      Interleaved (answers.map Errand.answered) s answers s
  | turn {before after : List Errand} {effect : Store → Store} {next : Store → Errand}
    {s s' : Store}
      {answers : List (Except StoreFault Unit)}
      (rest : Interleaved (before ++ next s :: after) (effect s) answers s') :
      Interleaved (before ++ .statement effect next :: after) s answers s'

namespace Interleaved

/-- The calls in the given places take turns. -/
def byTurns : List Nat → List Errand → Store → List Errand × Store
  | [], es, s => (es, s)
  | i :: rest, es, s =>
    match es[i]? with
    | some (.statement effect next) => byTurns rest (es.set i (next s)) (effect s)
    | _ => byTurns rest es s

/-- Taking turns until all calls are over is one way for them to go on. -/
theorem of_byTurns (turns : List Nat) {es : List Errand} {s : Store}
    {answers : List (Except StoreFault Unit)}
    (h : (byTurns turns es s).1.map Errand.answer? = answers.map some) :
    Interleaved es s answers (byTurns turns es s).2 := by
  fun_induction byTurns turns es s with
  | case1 es s =>
    obtain rfl : es = answers.map Errand.answered := Errand.eq_map_answered h
    exact .answered answers s
  | case2 i rest es s effect next hi ih =>
    obtain ⟨hlt, he⟩ := List.getElem?_eq_some_iff.1 hi
    have hsplit : es = es.take i ++ .statement effect next :: es.drop (i + 1) := by
      rw [← he, List.getElem_cons_drop, List.take_append_drop]
    have hset : es.set i (next s) = es.take i ++ next s :: es.drop (i + 1) := by
      rw [List.set_eq_take_append_cons_drop, if_pos hlt]
    rw [hset] at h ih
    have hturn := Interleaved.turn (ih h)
    rw [← hsplit] at hturn
    rw [hset]
    exact hturn
  | case3 i rest es s hi ih => exact ih h

end Interleaved

/-! ## Recording a job statement by statement -/

namespace Store

/-- The steps of a job are inserted, and everything is committed. -/
def filling (runId : Text) (j : JobRecord) : Errand :=
  .of (insertSteps runId j.jobId j.steps) fun _ => .of committing fun _ => .answered (.ok ())

/-- The job is inserted at a position. -/
def placing (runId : Text) (j : JobRecord) (p : Int) : Errand :=
  .of (change "jobs" fun tables => do tables.insertJob (← jobRow runId p j)) fun _ =>
    filling runId j

/-- What was recorded of the job before is removed. -/
def clearing (runId : Text) (j : JobRecord) (p : Int) : Errand :=
  .of (forgetJob runId j.jobId) fun _ => placing runId j p

/-- Recording a job. -/
def recording (runId : Text) (j : JobRecord) : Errand :=
  .of (position runId) fun p => clearing runId j p

/-- **With nothing between its statements, recording a job is the call that records it.** -/
theorem run_recording (runId : Text) (j : JobRecord) :
    (recording runId j).run = recordJob runId j := by
  simp only [recording, clearing, placing, filling, Errand.run_of]
  unfold recordJob
  have hend : (Store.andThen committing fun _ => (Errand.answered (.ok ())).run) = committing :=
    rfl
  rw [hend]

/-- How far the recording of a job is. From the first statement on it knows a position. -/
inductive Stage where
  | fresh
  | asked (p : Int)
  | cleared (p : Int)
  | placed (p : Int)
  | filled (p : Int)
  | done (p : Int)

namespace Stage

/-- What is left of the recording. -/
def errand (runId : Text) (j : JobRecord) : Stage → Errand
  | fresh => recording runId j
  | asked p => clearing runId j p
  | cleared p => placing runId j p
  | placed _ => filling runId j
  | filled _ => .of committing fun _ => .answered (.ok ())
  | done _ => .answered (.ok ())

/-- What one statement of the recording does to the tables. -/
inductive Moves (runId : String) (j : JobRecord) : Stage → Tables → Stage → Tables → Prop
  | ask (t : Tables) : Moves runId j fresh t (asked (t.nextPosition (.text runId))) t
  | clear (p : Int) (t : Tables) :
      Moves runId j (asked p) t (cleared p) (t.deleteJob (.text runId) j.jobId.cell)
  | place (p : Int) (t : Tables) :
      Moves runId j (cleared p) t (placed p) { t with jobs := t.jobs ++ [j.stored runId p] }
  | fill (p : Int) (t : Tables) :
      Moves runId j (placed p) t (filled p)
        { t with steps := t.steps ++ j.steps.map (StepRecord.stored runId j.jobId) }
  | commit (p : Int) (t : Tables) : Moves runId j (filled p) t (done p) t

end Stage

end Store

namespace Tables

variable {t t' : Tables} {runId : String}

/-- The rows of the jobs of a run. -/
def rowsOf (t : Tables) (runId : String) : List JobRow :=
  t.jobs.filter fun k => (Cell.text runId).meets k.runId

/-- The rows of one job of a run. -/
def rowsAt (t : Tables) (runId : String) (id : Cell) : List JobRow :=
  (t.rowsOf runId).filter fun k => k.jobId = id

theorem mem_rowsAt {id : Cell} {k : JobRow} :
    k ∈ t.rowsAt runId id ↔ k ∈ t.jobs ∧ k.runId = .text runId ∧ k.jobId = id := by
  simp only [rowsAt, rowsOf, List.mem_filter, Cell.meets_text, decide_eq_true_iff, and_assoc]

/-- A run has a job if it has a row of it. -/
theorem hasJob_iff_rowsAt {id : Cell} (hid : id ≠ .null) :
    t.hasJob (.text runId) id = true ↔ t.rowsAt runId id ≠ [] := by
  rw [hasJob_iff]
  constructor
  · rintro ⟨-, -, k, hk, hrun, hjob⟩
    exact List.ne_nil_of_mem (mem_rowsAt.2 ⟨hk, hrun, hjob⟩)
  · intro hrows
    obtain ⟨k, hk⟩ := List.exists_mem_of_ne_nil _ hrows
    exact ⟨Cell.noConfusion, hid, k, mem_rowsAt.1 hk⟩

end Tables

namespace Store

variable {runId : String} {j : JobRecord} {t t' : Tables} {st st' : Stage}

/-- What the tables have of a job while it is being recorded: once the old rows are cleared, only
its own. -/
def Stage.Holds (runId : String) (j : JobRecord) : Stage → Tables → Prop
  | fresh, _ => True
  | asked _, _ => True
  | cleared _, t => t.rowsAt runId j.jobId.cell = [] ∧ t.stepsOf (.text runId) j.jobId.cell = []
  | placed p, t =>
    t.rowsAt runId j.jobId.cell = [j.stored runId p] ∧ t.stepsOf (.text runId) j.jobId.cell = []
  | filled p, t =>
    t.rowsAt runId j.jobId.cell = [j.stored runId p] ∧
      t.stepsOf (.text runId) j.jobId.cell = j.steps.map (StepRecord.stored runId j.jobId)
  | done p, t =>
    t.rowsAt runId j.jobId.cell = [j.stored runId p] ∧
      t.stepsOf (.text runId) j.jobId.cell = j.steps.map (StepRecord.stored runId j.jobId)

namespace Stage

/-- A statement of the recording leaves the runs as they are. -/
theorem Moves.runs (h : Moves runId j st t st' t') : t'.runs = t.runs := by
  cases h <;> rfl

/-- A statement of the recording changes nothing of another job. -/
theorem Moves.other (h : Moves runId j st t st' t') {id : Cell} (hne : id ≠ j.jobId.cell) :
    t'.rowsAt runId id = t.rowsAt runId id ∧ t'.stepsOf (.text runId) id =
    t.stepsOf (.text runId) id := by
  have hother : ¬(runId = runId ∧ id = j.jobId.cell) := fun h => hne h.2
  cases h with
  | ask => exact ⟨rfl, rfl⟩
  | clear p =>
    refine ⟨?_, Tables.stepsOf_deleteJob_other hother⟩
    unfold Tables.rowsAt Tables.rowsOf Tables.deleteJob
    rw [List.filter_filter, List.filter_filter, List.filter_filter]
    refine List.filter_congr fun k _ => ?_
    by_cases hk : k.jobId = id
    · simp [hk, Cell.meets, Ne.symm hne]
    · simp [hk]
  | place p =>
    refine ⟨?_, rfl⟩
    have hrow : (j.stored runId p).jobId ≠ id := Ne.symm hne
    unfold Tables.rowsAt Tables.rowsOf
    simp [List.filter_append, List.filter_cons, hrow]
  | fill p =>
    refine ⟨rfl, ?_⟩
    show List.filter _ (_ ++ _) = _
    rw [List.filter_append, Tables.filter_stored_other hother, List.append_nil]
    rfl
  | commit p => exact ⟨rfl, rfl⟩

/-- What a statement of the recording does to the job itself. -/
theorem Moves.self (hj : j.Storable) (h : Moves runId j st t st' t') (hst : st.Holds runId j t) :
    st'.Holds runId j t' := by
  cases h with
  | ask => trivial
  | clear p =>
    refine ⟨List.filter_eq_nil_iff.2 fun k hk hid => ?_, t.stepsOf_deleteJob _ _⟩
    -- A row of the job would have been deleted.
    obtain ⟨hmem, hrun⟩ := List.mem_filter.1 hk
    have hkept := (List.mem_filter.1 hmem).2
    rw [hrun, of_decide_eq_true hid, Cell.meets_iff.2 ⟨hj.jobId.cell_ne_null, rfl⟩] at hkept
    cases hkept
  | place p =>
    obtain ⟨hrows, hsteps⟩ := hst
    refine ⟨?_, hsteps⟩
    have hrow : (Cell.text runId).meets (j.stored runId p).runId = true := Cell.meets_text.2 rfl
    unfold Tables.rowsAt Tables.rowsOf at hrows ⊢
    rw [List.filter_append, List.filter_append, hrows, List.filter_singleton, hrow, cond_true,
      List.filter_singleton]
    simp [JobRecord.stored]
  | fill p =>
    obtain ⟨hrows, hsteps⟩ := hst
    refine ⟨hrows, ?_⟩
    show List.filter _ (_ ++ _) = _
    rw [List.filter_append, Tables.filter_stored hj]
    exact congrArg (· ++ _) hsteps
  | commit p => exact hst

/-- The next statement of the recording succeeds, and moves it on. -/
theorem moves_of_errand (hj : j.Storable) (hrun : t.hasRun (.text runId) = true)
    (hst : st.Holds runId j t)
    {effect : Store → Store} {next : Store → Errand} (h : st.errand runId j =
        .statement effect next)
    {s : Store} (hseen : s.seen = some t) :
    ∃ st' t', Moves runId j st t st' t' ∧ (effect s).seen = some t' ∧
    next s = st'.errand runId j := by
  obtain ⟨o, seen⟩ := s
  cases hseen
  cases st with
  | fresh =>
    obtain ⟨heffect, hnext⟩ := Errand.of_eq_statement h (position_eq o t runId)
    exact ⟨_, _, .ask t, by rw [heffect], hnext⟩
  | asked p =>
    obtain ⟨heffect, hnext⟩ := Errand.of_eq_statement h (forgetJob_eq (o := o) (t := t) hj.jobId)
    exact ⟨_, _, .clear p t, by rw [heffect], hnext⟩
  | cleared p =>
    -- The old rows are gone, so the new one is not refused.
    have hno : t.hasJob (.text runId) j.jobId.cell = false :=
      Bool.eq_false_iff.2 fun hhas => (Tables.hasJob_iff_rowsAt hj.jobId.cell_ne_null).1
        hhas hst.1
    have hchange : change "jobs" (fun tables => do tables.insertJob (← jobRow runId p j))
        ⟨o, some t⟩ =
        (.ok (), ⟨o, some { t with jobs := t.jobs ++ [j.stored runId p] }⟩) := by
      refine change_of_ok ?_
      rw [jobRow_eq hj]
      show t.insertJob (j.stored runId p) = _
      rw [Tables.insertJob, firstEmpty_jobRow hj,
        show t.hasJob (j.stored runId p).runId (j.stored runId p).jobId = false from hno,
        show t.hasRun (j.stored runId p).runId = true from hrun]
      rfl
    obtain ⟨heffect, hnext⟩ := Errand.of_eq_statement h hchange
    exact ⟨_, _, .place p t, by rw [heffect], hnext⟩
  | placed p =>
    -- The steps refer to the row that was inserted.
    have hjob : t.hasJob (.text runId) j.jobId.cell = true :=
      (Tables.hasJob_iff_rowsAt hj.jobId.cell_ne_null).2 (hst.1 ▸ List.cons_ne_nil _ _)
    obtain ⟨heffect, hnext⟩ :=
      Errand.of_eq_statement h (insertSteps_eq (o := o) hj.jobId hj.steps hjob)
    exact ⟨_, _, .fill p t, by rw [heffect], hnext⟩
  | filled p =>
    have hcommit : committing ⟨o, some t⟩ = (.ok (), ⟨some t, some t⟩) := rfl
    have hlast : Errand.of committing (fun _ => .answered (.ok ())) = .statement effect next := h
    obtain ⟨heffect, hnext⟩ := Errand.of_eq_statement hlast hcommit
    exact ⟨_, _, .commit p t, by rw [heffect], hnext⟩
  | done p => cases h

end Stage

/-! ## Recordings in the middle of each other -/

/-- Jobs that are being recorded: what the tables have of each by now, and that nothing else has
changed. -/
structure Amid (runId : String) (before : Tables) (calls : List (JobRecord × Stage))
    (t : Tables) : Prop where
  runs : t.runs = before.runs
  own : ∀ c ∈ calls, c.2.Holds runId c.1 t
  others : ∀ id, (∀ c ∈ calls, id ≠ c.1.jobId.cell) →
    t.rowsAt runId id = before.rowsAt runId id ∧
      t.stepsOf (.text runId) id = before.stepsOf (.text runId) id

variable {before : Tables}

/-- Nothing is recorded yet. -/
theorem amid_fresh (runId : String) (js : List JobRecord) (t : Tables) :
    Amid runId t (js.map fun j => (j, .fresh)) t := by
  refine ⟨rfl, fun c hc => ?_, fun _ _ => ⟨rfl, rfl⟩⟩
  obtain ⟨j, -, rfl⟩ := List.mem_map.1 hc
  trivial

/-- What the tables have of a job does not change with another. -/
theorem Stage.Holds.congr (h : st.Holds runId j t)
    (hsame : t'.rowsAt runId j.jobId.cell = t.rowsAt runId j.jobId.cell ∧
      t'.stepsOf (.text runId) j.jobId.cell = t.stepsOf (.text runId) j.jobId.cell) :
    st.Holds runId j t' := by
  obtain ⟨hrows, hsteps⟩ := hsame
  cases st with
  | fresh => trivial
  | asked p => trivial
  | cleared p => exact ⟨hrows.trans h.1, hsteps.trans h.2⟩
  | placed p => exact ⟨hrows.trans h.1, hsteps.trans h.2⟩
  | filled p => exact ⟨hrows.trans h.1, hsteps.trans h.2⟩
  | done p => exact ⟨hrows.trans h.1, hsteps.trans h.2⟩

/-- One of the recordings moves on. -/
theorem Amid.move {front back : List (JobRecord × Stage)}
    (h : Amid runId before (front ++ (j, st) :: back) t)
    (hj : j.Storable) (hdistinct : ∀ c ∈ front ++ back, c.1.jobId.cell ≠ j.jobId.cell)
    (hmove : Stage.Moves runId j st t st' t') :
    Amid runId before (front ++ (j, st') :: back) t' := by
  refine ⟨hmove.runs.trans h.runs, fun c hc => ?_, fun id hid => ?_⟩
  · have hself : st'.Holds runId j t' := hmove.self hj (h.own (j, st) (by simp))
    have hother : ∀ c ∈ front ++ back, c.2.Holds runId c.1 t' := by
      intro c hc
      have hmem : c ∈ front ++ (j, st) :: back := by
        rcases List.mem_append.1 hc with hc | hc
        · exact List.mem_append_left _ hc
        · exact List.mem_append_right _ (List.mem_cons_of_mem _ hc)
      exact (h.own c hmem).congr (hmove.other (hdistinct c hc))
    rcases List.mem_append.1 hc with hc | hc
    · exact hother c (List.mem_append_left _ hc)
    · rcases List.mem_cons.1 hc with rfl | hc
      · exact hself
      · exact hother c (List.mem_append_right _ hc)
  · have hne : id ≠ j.jobId.cell := hid (j, st') (by simp)
    obtain ⟨hrows, hsteps⟩ := hmove.other hne
    have hbefore : ∀ c ∈ front ++ (j, st) :: back, id ≠ c.1.jobId.cell := by
      intro c hc
      rcases List.mem_append.1 hc with hc | hc
      · exact hid c (List.mem_append_left _ hc)
      · rcases List.mem_cons.1 hc with rfl | hc
        · exact hne
        · exact hid c (List.mem_append_right _ (List.mem_cons_of_mem _ hc))
    obtain ⟨hrows', hsteps'⟩ := h.others id hbefore
    exact ⟨hrows.trans hrows', hsteps.trans hsteps'⟩

/-- Recordings that are all over succeeded. -/
theorem done_of_answered {calls : List (JobRecord × Stage)}
    {answers : List (Except StoreFault Unit)}
    (h : calls.map (fun c => c.2.errand runId c.1) = answers.map Errand.answered) :
    answers = calls.map (fun _ => .ok ()) ∧
      ∃ done : List (JobRecord × Int), calls = done.map fun c => (c.1, .done c.2) := by
  induction calls generalizing answers with
  | nil => exact ⟨List.map_eq_nil_iff.1 h.symm, [], rfl⟩
  | cons c calls ih =>
    obtain ⟨j, st⟩ := c
    obtain ⟨a, rest, rfl, hcall, hrest⟩ := List.map_eq_cons_iff.1 h.symm
    obtain ⟨rfl, done, rfl⟩ := ih hrest.symm
    cases st with
    | done p =>
      cases hcall
      exact ⟨rfl, (j, p) :: done, rfl⟩
    | _ => cases hcall

/-- **Recordings in any order**: all of them are done in the end, and the tables have what they
should. -/
theorem amid_of_interleaved {calls : List (JobRecord × Stage)} {s s' : Store}
    {answers : List (Except StoreFault Unit)}
    (h : Interleaved (calls.map fun c => c.2.errand runId c.1) s answers s')
    (hstorable : ∀ c ∈ calls, c.1.Storable)
    (hdistinct : (calls.map fun c => c.1.jobId.cell).Nodup)
    (hseen : s.seen = some t) (hrun : before.hasRun (.text runId) = true)
    (hamid : Amid runId before calls t) :
    answers = calls.map (fun _ => .ok ()) ∧ ∃ done : List (JobRecord × Int), ∃ t',
      done.map Prod.fst = calls.map Prod.fst ∧ s'.seen = some t' ∧
        Amid runId before (done.map fun c => (c.1, .done c.2)) t' := by
  generalize hes : calls.map (fun c => c.2.errand runId c.1) = es at h
  -- On the statements that are left: each moves one of the calls on.
  induction h generalizing calls t with
  | answered answers s =>
    obtain ⟨rfl, done, rfl⟩ := done_of_answered hes
    exact ⟨rfl, done, t, by rw [List.map_map]; rfl, hseen, hamid⟩
  | @turn front back effect next s s' answers rest ih =>
    obtain ⟨cs, cs', rfl, hfront, hback⟩ := List.map_eq_append_iff.1 hes
    obtain ⟨⟨j, st⟩, ds, rfl, hcall, rfl⟩ := List.map_eq_cons_iff.1 hback
    have hj : j.Storable := hstorable (j, st) (by simp)
    have hhas : t.hasRun (.text runId) = true := by
      rw [Tables.hasRun, hamid.runs]
      exact hrun
    obtain ⟨st', t', hmove, hseen', hnext⟩ :=
        Stage.moves_of_errand hj hhas (hamid.own (j, st) (by simp))
      hcall hseen
    have hothers : ∀ c ∈ cs ++ ds, c.1.jobId.cell ≠ j.jobId.cell := by
      rw [List.map_append, List.map_cons, List.nodup_middle, ← List.map_append,
        List.nodup_cons] at hdistinct
      exact fun c hc heq => hdistinct.1 (List.mem_map.2 ⟨c, hc, heq⟩)
    have hsame : ∀ {β : Type} (f : JobRecord → β), (cs ++ (j, st') :: ds).map (fun c => f c.1) =
        (cs ++ (j, st) :: ds).map fun c => f c.1 := by simp
    have hstorable' : ∀ c ∈ cs ++ (j, st') :: ds, c.1.Storable := by
      intro c hc
      have hmem : c.1 ∈ (cs ++ (j, st) :: ds).map fun c => c.1 := by
        rw [← hsame fun j => j]
        exact List.mem_map_of_mem hc
      obtain ⟨d, hd, hdc⟩ := List.mem_map.1 hmem
      rw [← hdc]
      exact hstorable d hd
    obtain ⟨hanswers, done, t'', hdone, hend⟩ := ih hstorable' (by simpa using hdistinct) hseen'
      (hamid.move hj hothers hmove) (by simp [hfront, hnext])
    exact ⟨hanswers.trans (hsame fun _ => _), done, t'', hdone.trans (hsame fun j => j), hend⟩

/-! ## What the run has in the end -/

/-- Lists with the same elements under each key are the same up to order. -/
theorem perm_of_filter {α κ : Type} [DecidableEq α] [DecidableEq κ] (f : α → κ) {l l' : List α}
    (h : ∀ k, l.filter (fun a => f a = k) = l'.filter fun a => f a = k) : l.Perm l' := by
  refine List.perm_iff_count.2 fun a => ?_
  have hcount := congrArg (List.count a) (h (f a))
  rwa [List.count_filter (by simp), List.count_filter (by simp)] at hcount

/-- Among jobs with different ids, there is one of each id. -/
theorem filter_stored_eq {done : List (JobRecord × Int)}
    (hdistinct : (done.map fun c => c.1.jobId.cell).Nodup) {c : JobRecord × Int}
    (hc : c ∈ done) :
    (done.map fun d => d.1.stored runId d.2).filter (fun k => k.jobId = c.1.jobId.cell) =
      [c.1.stored runId c.2] := by
  obtain ⟨front, back, rfl⟩ := List.append_of_mem hc
  rw [List.map_append, List.map_cons, List.nodup_middle, ← List.map_append,
    List.nodup_cons] at hdistinct
  have hnone : ∀ cs : List (JobRecord × Int), (∀ d ∈ cs, d ∈ front ++ back) →
      (cs.map fun d => d.1.stored runId d.2).filter (fun k => k.jobId = c.1.jobId.cell) =
        [] := by
    intro cs hcs
    refine List.filter_eq_nil_iff.2 fun k hk hid => ?_
    obtain ⟨d, hd, rfl⟩ := List.mem_map.1 hk
    exact hdistinct.1 (List.mem_map.2 ⟨d, hcs d hd, of_decide_eq_true hid⟩)
  have hself : decide ((c.1.stored runId c.2).jobId = c.1.jobId.cell) = true :=
    decide_eq_true rfl
  rw [List.map_append, List.map_cons, List.filter_append, List.filter_cons, if_pos hself,
    hnone front fun d hd => List.mem_append_left _ hd, hnone back fun d hd =>
      List.mem_append_right _ hd,
    List.nil_append]

/-- When all recordings are done, the run has their rows, and those of other jobs as before. -/
theorem Amid.rows_perm {done : List (JobRecord × Int)}
    (h : Amid runId before (done.map fun c => (c.1, .done c.2)) t)
    (hdistinct : (done.map fun c => c.1.jobId.cell).Nodup) (hstorable : ∀ c ∈ done,
     c.1.Storable) :
    (t.rowsOf runId).Perm (((before.rowsOf runId).filter fun k =>
      done.all fun c => !c.1.jobId.cell.meets k.jobId) ++ done.map fun c =>
          c.1.stored runId c.2) := by
  -- By the id: either it is that of a recording, or nothing has changed.
  refine perm_of_filter JobRow.jobId fun id => ?_
  rw [List.filter_append]
  by_cases hid : ∃ c ∈ done, c.1.jobId.cell = id
  · obtain ⟨c, hc, rfl⟩ := hid
    have hown := (h.own (c.1, .done c.2) (List.mem_map_of_mem hc)).1
    have hold : ((before.rowsOf runId).filter fun k => done.all fun c =>
        !c.1.jobId.cell.meets k.jobId).filter
        (fun k => k.jobId = c.1.jobId.cell) = [] := by
      refine List.filter_eq_nil_iff.2 fun k hk hkid => ?_
      have hkept := List.all_eq_true.1 (List.mem_filter.1 hk).2 c hc
      rw [of_decide_eq_true hkid, Cell.meets_iff.2 ⟨(hstorable c hc).jobId.cell_ne_null,
        rfl⟩] at hkept
      cases hkept
    rw [hold, filter_stored_eq hdistinct hc, List.nil_append]
    exact hown
  · have hnone : ∀ c ∈ done, c.1.jobId.cell ≠ id := fun c hc heq => hid ⟨c, hc, heq⟩
    have hsame := (h.others id (by
      intro c hc
      obtain ⟨d, hd, rfl⟩ := List.mem_map.1 hc
      exact (hnone d hd).symm)).1
    have hnew : (done.map fun c => c.1.stored runId c.2).filter (fun k => k.jobId = id) =
        [] := by
      refine List.filter_eq_nil_iff.2 fun k hk hkid => ?_
      obtain ⟨c, hc, rfl⟩ := List.mem_map.1 hk
      exact hnone c hc (of_decide_eq_true hkid)
    rw [hnew, List.append_nil, Tables.filter_filter_of_imp fun k hkid => ?_]
    · exact hsame
    · refine List.all_eq_true.2 fun c hc => ?_
      have hne := hnone c hc
      rw [← of_decide_eq_true hkid] at hne
      simp [Cell.meets, hne]

/-- A job that is done has its record. -/
theorem Amid.jobRecord_own {done : List (JobRecord × Int)}
    (h : Amid runId before (done.map fun c => (c.1, .done c.2)) t) {c : JobRecord × Int}
    (hc : c ∈ done)
    (hj : c.1.Storable) : jobRecord t true (c.1.stored runId c.2) = c.1 := by
  have hsteps := (h.own (c.1, .done c.2) (List.mem_map_of_mem hc)).2
  rw [jobRecord_row hj, hsteps, List.map_map]
  have hsame : c.1.steps.map (stepRecord ∘ StepRecord.stored runId c.1.jobId) = c.1.steps :=
    (List.map_congr_left fun s hs => stepRecord_row c.1.jobId (hj.steps s hs)).trans
      (List.map_id c.1.steps)
  rw [hsame]

/-- A job that was not recorded has the record that it had. -/
theorem Amid.jobRecord_other {done : List (JobRecord × Int)}
    (h : Amid runId before (done.map fun c => (c.1, .done c.2)) t) {k : JobRow}
    (hk : k ∈ before.rowsOf runId) (hother : ∀ c ∈ done, k.jobId ≠ c.1.jobId.cell) :
    jobRecord t true k = jobRecord before true k := by
  have hsteps := (h.others k.jobId fun c hc => by
    obtain ⟨d, hd, rfl⟩ := List.mem_map.1 hc
    exact hother d hd).2
  have hrun : k.runId = .text runId := Cell.meets_text.1 (List.mem_filter.1 hk).2
  simp only [jobRecord, hrun, hsteps]

/-- When all recordings are done, the run has their jobs, and the others as before. -/
theorem Amid.jobs_perm {done : List (JobRecord × Int)}
    (h : Amid runId before (done.map fun c => (c.1, .done c.2)) t)
    (hdistinct : (done.map fun c => c.1.jobId.cell).Nodup) (hstorable : ∀ c ∈ done,
     c.1.Storable) :
    ((t.jobsOf (.text runId)).map (jobRecord t true)).Perm
      ((((before.jobsOf (.text runId)).map (jobRecord before true)).filter fun k =>
        (done.map Prod.fst).all fun j => !j.sameId k) ++ done.map Prod.fst) := by
  have hsorted : ∀ u : Tables, (u.jobsOf (.text runId)).Perm (u.rowsOf runId) :=
    fun u => List.mergeSort_perm _ _
  have hids : (fun k => (done.map Prod.fst).all fun j => !j.sameId k) ∘ jobRecord before true =
      fun k : JobRow => done.all fun c => !c.1.jobId.cell.meets k.jobId := by
    funext k
    rw [Function.comp_apply, List.all_map, Bool.eq_iff_iff, List.all_eq_true, List.all_eq_true]
    refine forall₂_congr fun c hc => ?_
    rw [Function.comp_apply, Tables.sameId_jobRecord (hstorable c hc)]
  have hold : ((before.rowsOf runId).filter fun k => done.all fun c =>
      !c.1.jobId.cell.meets k.jobId).map
      (jobRecord t true) =
      ((before.rowsOf runId).map (jobRecord before true)).filter fun k =>
        (done.map Prod.fst).all fun j => !j.sameId k := by
    rw [List.filter_map, hids]
    refine List.map_congr_left fun k hk => ?_
    obtain ⟨hmem, hkept⟩ := List.mem_filter.1 hk
    refine h.jobRecord_other hmem fun c hc heq => ?_
    have hnot := List.all_eq_true.1 hkept c hc
    rw [heq, Cell.meets_iff.2 ⟨(hstorable c hc).jobId.cell_ne_null, rfl⟩] at hnot
    cases hnot
  have hnew : (done.map fun c => c.1.stored runId c.2).map (jobRecord t true) =
      done.map Prod.fst := by
    rw [List.map_map]
    exact List.map_congr_left fun c hc => h.jobRecord_own hc (hstorable c hc)
  have hrows := (h.rows_perm hdistinct hstorable).map (jobRecord t true)
  rw [List.map_append, hold, hnew] at hrows
  refine ((hsorted t).map _).trans (hrows.trans (List.Perm.append_right _ ?_))
  exact (((hsorted before).map _).filter _).symm

/-- Different ids are stored in different ways. -/
theorem nodup_cells {js : List JobRecord} (hstorable : ∀ j ∈ js, j.Storable)
    (hdistinct : (js.map JobRecord.jobId).Nodup) : (js.map fun j => j.jobId.cell).Nodup := by
  have hmap := hdistinct.map_on (f := Value.cell) fun v hv w hw hsame => ?_
  · rwa [List.map_map] at hmap
  · obtain ⟨j, hj, rfl⟩ := List.mem_map.1 hv
    obtain ⟨k, hk, rfl⟩ := List.mem_map.1 hw
    obtain ⟨a, ha⟩ := (hstorable j hj).jobId
    obtain ⟨b, hb⟩ := (hstorable k hk).jobId
    rw [ha, hb, Value.cell_ofString, Value.cell_ofString] at hsame
    rw [ha, hb, Cell.text.inj hsame]

/-- **Jobs that are recorded at the same time are all recorded.** The calls that record different
jobs of a run all succeed, in whatever order their statements come; and in the end the run has
each of the jobs once, with all its steps, beside the other jobs that it had before. -/
theorem interleaved_recordings {runId : Text} {run : RunRecord} {js : List JobRecord}
    {s s' : Store}
    {answers : List (Except StoreFault Unit)} (hrun : s.getRun runId = .ok (some run))
    (hstorable : ∀ j ∈ js, j.Storable) (hdistinct : (js.map JobRecord.jobId).Nodup)
    (h : Interleaved (js.map (recording runId)) s answers s') :
    answers = js.map (fun _ => .ok ()) ∧
      ∃ jobs, s'.getRun runId = .ok (some { run with jobs := jobs }) ∧
        jobs.Perm ((run.jobs.filter fun k => js.all fun j => !j.sameId k) ++ js) := by
  unfold getRun at hrun
  cases hseen : s.seen with
  | none => rw [hseen] at hrun; cases hrun
  | some before =>
    rw [hseen] at hrun
    -- The id can be written, since the run was found.
    obtain ⟨c, hc, hfound⟩ := bind_eq_ok hrun
    obtain ⟨runId, rfl, rfl⟩ := Cell.ofText_eq_ok hc
    obtain ⟨r, hr, rfl⟩ := Option.map_eq_some_iff.1 (Except.ok.inj hfound)
    have hmeets := List.find?_some hr
    have hid : r.id = .text runId := Cell.meets_text.1 hmeets
    have hhas : before.hasRun (.text runId) = true :=
      List.any_eq_true.2 ⟨r, List.mem_of_find?_eq_some hr, hmeets⟩
    have hcells := nodup_cells hstorable hdistinct
    have hfst : ∀ {β : Type} (f : JobRecord → β),
        (js.map fun j => (j, Stage.fresh)).map (fun c => f c.1) = js.map f := by simp
    have hcalls : Interleaved ((js.map fun j => (j, Stage.fresh)).map fun c =>
        c.2.errand runId c.1)
        s answers s' := by
      rw [List.map_map]
      exact h
    obtain ⟨hanswers, done, t, hdone, hseen', hamid⟩ := amid_of_interleaved hcalls
      (by simpa using hstorable) (by rwa [hfst fun j => j.jobId.cell]) hseen hhas
        (amid_fresh runId js before)
    rw [hfst fun j => j, List.map_id'] at hdone
    have hdone' : (done.map fun c => c.1.jobId.cell).Nodup := by
      rw [← hdone, List.map_map] at hcells
      exact hcells
    have hstorable' : ∀ c ∈ done, c.1.Storable := by
      intro c hc
      refine hstorable c.1 ?_
      rw [← hdone]
      exact List.mem_map_of_mem hc
    refine ⟨hanswers.trans (hfst fun _ => _), (t.jobsOf r.id).map (jobRecord t true), ?_, ?_⟩
    · have hfind : t.runs.find? (fun r => (Cell.text runId).meets r.id) = some r := by
        rw [hamid.runs]
        exact hr
      unfold getRun
      rw [hseen', Cell.ofText_ofString]
      show Except.ok ((t.runs.find? _).map _) = _
      rw [hfind]
      rfl
    · have hperm := hamid.jobs_perm hdone' hstorable'
      rw [hdone, ← hid] at hperm
      exact hperm

/-- A run that has started. -/
def oneRunStarted : Store := (createRun "r" none (some springNoon) Store.empty.createTables).2

theorem getRun_oneRunStarted :
    oneRunStarted.getRun "r" = .ok (some (History.started "r" none springNoon)) := by
  obtain ⟨t, hstore, hsound, hview⟩ := (keeps_blank.createRun valid_springNoon "r" none).2
  have hseen : oneRunStarted.seen = some t := congrArg Store.seen hstore
  rw [Tables.getRun_eq_view hseen hsound, hview]
  rfl

/-- Two jobs are recorded, and the statements of the calls alternate. -/
theorem interleaved_recordings_alternating :
    ∃ s', Interleaved ([exitedJob "a" 0, exitedJob "b" 1].map (recording "r")) oneRunStarted
        [.ok (), .ok ()] s' ∧
      ∃ jobs, s'.getRun "r" = .ok
      (some { History.started "r" none springNoon with jobs := jobs }) ∧
        jobs.Perm [exitedJob "a" 0, exitedJob "b" 1] := by
  have hturns : Interleaved ([exitedJob "a" 0, exitedJob "b" 1].map (recording "r"))
      oneRunStarted
      [.ok (), .ok ()] _ :=
    Interleaved.of_byTurns [0, 1, 0, 1, 0, 1, 0, 1, 0, 1] (by decide +kernel)
  have hstorable : ∀ j ∈ [exitedJob "a" 0, exitedJob "b" 1], j.Storable := by
    simp [storable_exitedJob, Cell.fits, Cell.wordBound]
  exact ⟨_, hturns, (interleaved_recordings getRun_oneRunStarted hstorable
      (by simp [exitedJob, Text.ofString_inj])
    hturns).2⟩

/-- The positions of all jobs. -/
def positions (s : Store) : Option (List (Cell × Int)) :=
  s.seen.map fun t => t.jobs.map fun k => (k.jobId, k.position)

/-- **Two jobs get the same position**: both calls ask for the next one before either inserts its
job. And a call whose exit code does not fit fails, also if nothing comes between its
statements. -/
theorem shared_position :
    (∃ s', Interleaved ([exitedJob "a" 0, exitedJob "b" 1].map (recording "r")) oneRunStarted
        [.ok (), .ok ()] s' ∧ s'.positions = some [(.text "a", 0), (.text "b", 0)]) ∧
      ∃ s', Interleaved ([exitedJob "a" 0, exitedJob "b" Cell.wordBound].map (recording "r"))
      oneRunStarted
        [.ok (), .error .tooLarge] s' :=
  ⟨⟨_, Interleaved.of_byTurns [0, 1, 0, 0, 0, 0, 1, 1, 1, 1] (by decide +kernel),
      by decide +kernel⟩,
    _, Interleaved.of_byTurns [0, 0, 0, 0, 0, 1, 1, 1, 1, 1] (by decide +kernel)⟩

end Store

end Conveyor
