import Conveyor.Proofs.Fallible
import Conveyor.Proofs.Store.History

/-!
# Refused calls

A call that is refused commits nothing, so closing the store undoes it. A call of a single
statement has no effect at all. Recording a job takes several statements, and what those before
the refused one did is seen at once and lasts from the next commit on.

- `Store.Remnant`: what a refused recording of a job leaves behind.
- `Store.refused_calls`: **what refused calls leave behind**.
- `Store.refused_recording_forgets`: a refused recording can cost what was recorded before.
-/

namespace Conveyor

namespace Store

variable {s : Store} {t : Tables} {runId : Text} {j : JobRecord} {fault : StoreFault}

/-- What a refused recording of a job leaves behind. -/
inductive Remnant (runId : Text) (j : JobRecord) (s : Store) : Store → Prop
  /-- Nothing. -/
  | unchanged : Remnant runId j s s
  /-- What was recorded of the job before is gone. -/
  | forgotten {t : Tables} {run id : Cell} (seen : s.seen = some t)
      (runCell : Cell.ofText runId = .ok run) (jobId : Cell.ofValue 2 j.jobId = .ok id) :
      Remnant runId j s { s with seen := some (t.deleteJob run id.asText) }
  /-- It is gone, and the job stands there anew with some of its steps, but not all. -/
  | begun {t : Tables} {run id : Cell} {row : JobRow} {done rest : List StepRecord}
      {rows : List StepRow}
      (seen : s.seen = some t) (runCell : Cell.ofText runId = .ok run)
      (jobId : Cell.ofValue 2 j.jobId = .ok id)
      (job : jobRow runId (t.nextPosition run) j = .ok row)
      (steps : j.steps = done ++ rest) (left : rest ≠ [])
      (made : done.mapM (stepRow runId j.jobId) = .ok rows) :
      Remnant runId j s { s with
        seen := some
          { t.deleteJob run id.asText with
            jobs := (t.deleteJob run id.asText).jobs ++ [row]
            steps := (t.deleteJob run id.asText).steps ++ rows } }

theorem Remnant.committed {s' : Store} (h : Remnant runId j s s') :
    s'.committed = s.committed := by
  cases h <;> rfl

/-! ## Single statements -/

section

variable {α β : Type} {a : StoreStep α} {k : α → StoreStep β} {name : String} {s' : Store}
  {f : Tables → Except StoreFault Tables}

/-- A refused change has no effect. -/
theorem change_eq_error (h : change name f s = (.error fault, s')) : s' = s := by
  unfold change at h
  split at h
  · exact (Prod.mk.inj h).2.symm
  · split at h
    · cases (Prod.mk.inj h).1
    · exact (Prod.mk.inj h).2.symm

/-- A change that is made is seen. -/
theorem change_eq_ok {u : Unit} (h : change name f s = (.ok u, s')) :
    ∃ t t', s.seen = some t ∧ f t = .ok t' ∧ s' = { s with seen := some t' } := by
  unfold change at h
  split at h
  · cases (Prod.mk.inj h).1
  · next t hseen =>
    split at h
    · next t' hf => exact ⟨t, t', hseen, hf, (Prod.mk.inj h).2.symm⟩
    · cases (Prod.mk.inj h).1

/-- Of two changes, the first is refused, or the second after the first was made. -/
theorem andThen_eq_error (h : andThen a k s = (.error fault, s')) :
    a s = (.error fault, s') ∨ ∃ x m, a s = (.ok x, m) ∧ k x m = (.error fault, s') := by
  rcases ha : a s with ⟨answer | x, m⟩
  · rw [andThen_of_error ha] at h
    obtain ⟨hfault, rfl⟩ := Prod.mk.inj h
    obtain rfl := Except.error.inj hfault
    exact .inl rfl
  · rw [andThen_of_ok ha] at h
    exact .inr ⟨x, m, rfl, h⟩

/-- A call of one statement that is refused has no effect. -/
theorem committing_eq_error (h : andThen (change name f) (fun _ => committing) s =
    (.error fault, s')) :
    s' = s := by
  rcases andThen_eq_error h with h | ⟨u, m, -, h⟩
  · exact change_eq_error h
  · cases (Prod.mk.inj h).1

end

/-! ## Recording a job -/

/-- A job is inserted after the others. -/
theorem insertJob_eq_ok {row : JobRow} {t' : Tables} (h : t.insertJob row = .ok t') :
    t' = { t with jobs := t.jobs ++ [row] } := by
  unfold Tables.insertJob at h
  split at h
  · cases h
  · split at h
    · cases h
    · split at h
      · exact (Except.ok.inj h).symm
      · cases h

/-- A step is inserted after the others. -/
theorem insertStep_eq_ok {row : StepRow} {t' : Tables} (h : t.insertStep row = .ok t') :
    t' = { t with steps := t.steps ++ [row] } := by
  unfold Tables.insertStep at h
  split at h
  · cases h
  · split at h
    · exact (Except.ok.inj h).symm
    · cases h

/-- Of steps that are inserted one after another, those before the refused one stay. -/
theorem insertSteps_eq_error {jobId : Value} {steps : List StepRecord} {s' : Store}
    (hseen : s.seen = some t) (h : insertSteps runId jobId steps s = (.error fault, s')) :
    ∃ done rest rows, steps = done ++ rest ∧ rest ≠ [] ∧
      done.mapM (stepRow runId jobId) = .ok rows ∧
      s' = { s with seen := some { t with steps := t.steps ++ rows } } := by
  induction steps generalizing s t with
  | nil => cases (Prod.mk.inj h).1
  | cons step steps ih =>
    rw [insertSteps] at h
    rcases andThen_eq_error h with h | ⟨u, m, hchange, h⟩
    · refine ⟨[], step :: steps, [], rfl, List.cons_ne_nil _ _, rfl, ?_⟩
      rw [change_eq_error h, List.append_nil, ← hseen]
    · obtain ⟨t₀, t', hseen₀, hf, rfl⟩ := change_eq_ok hchange
      obtain rfl : t₀ = t := Option.some.inj (hseen₀.symm.trans hseen)
      obtain ⟨row, hrow, hins⟩ := bind_eq_ok hf
      obtain rfl := insertStep_eq_ok hins
      obtain ⟨done, rest, rows, rfl, hleft, hmade, rfl⟩ := ih rfl h
      refine ⟨step :: done, rest, row :: rows, rfl, hleft, ?_, ?_⟩
      · rw [List.mapM_cons, hrow, hmade]
        rfl
      · simp

/-- **What a refused recording of a job leaves behind.** -/
theorem remnant_of_recordJob {s' : Store} (h : recordJob runId j s = (.error fault, s')) :
    Remnant runId j s s' := by
  unfold recordJob at h
  rcases andThen_eq_error h with h | ⟨p, m, hposition, h⟩
  · unfold position at h
    split at h
    · obtain rfl := (Prod.mk.inj h).2
      exact .unchanged
    · obtain rfl := (Prod.mk.inj h).2
      exact .unchanged
  unfold position at hposition
  split at hposition
  · cases (Prod.mk.inj hposition).1
  next t hseen =>
  obtain ⟨hp, rfl⟩ := Prod.mk.inj hposition
  obtain ⟨run, hrunCell, rfl⟩ := exists_of_map_eq_ok hp
  rcases andThen_eq_error h with h | ⟨u, m, hforget, h⟩
  · obtain rfl := change_eq_error h
    exact .unchanged
  obtain ⟨t₀, t', hseen₀, hf, rfl⟩ := change_eq_ok hforget
  obtain rfl : t₀ = t := Option.some.inj (hseen₀.symm.trans hseen)
  obtain ⟨run', hrun', hf⟩ := bind_eq_ok hf
  obtain rfl : run = run' := Except.ok.inj (hrunCell.symm.trans hrun')
  obtain ⟨id, hid, hdelete⟩ := bind_eq_ok hf
  obtain rfl := Except.ok.inj hdelete
  rcases andThen_eq_error h with h | ⟨u, m, hinsert, h⟩
  · obtain rfl := change_eq_error h
    exact .forgotten hseen hrunCell hid
  obtain ⟨t₁, t', hseen₁, hf, rfl⟩ := change_eq_ok hinsert
  obtain rfl : t₁ = t₀.deleteJob run id.asText := (Option.some.inj hseen₁).symm
  obtain ⟨row, hrow, hins⟩ := bind_eq_ok hf
  obtain rfl := insertJob_eq_ok hins
  rcases andThen_eq_error h with h | ⟨u, m, -, h⟩
  · obtain ⟨done, rest, rows, hsteps, hleft, hmade, rfl⟩ := insertSteps_eq_error rfl h
    exact .begun hseen hrunCell hid hrow hsteps hleft hmade
  · cases (Prod.mk.inj h).1

/-! ## All calls -/

/-- **What refused calls leave behind.** A refused start or end of a run has no effect. A refused
recording of a job leaves no more than a `Remnant`, and nothing once the store is closed. -/
theorem refused_calls (s : Store) :
    (∀ runId branch startedAt fault s',
      createRun runId branch startedAt s = (.error fault, s') → s' = s) ∧
    (∀ run fault s', completeRun run s = (.error fault, s') → s' = s) ∧
    ∀ runId j fault s', recordJob runId j s = (.error fault, s') →
      Remnant runId j s s' ∧ s'.reopen = s.reopen := by
  refine ⟨?_, ?_, ?_⟩
  · intro runId branch startedAt fault s' h
    unfold createRun at h
    split at h
    · exact (Prod.mk.inj h).2.symm
    · exact committing_eq_error h
  · intro run fault s' h
    exact committing_eq_error h
  · intro runId j fault s' h
    have hremnant := remnant_of_recordJob h
    refine ⟨hremnant, ?_⟩
    unfold reopen
    rw [hremnant.committed]

/-- A history with one run, of which one job is recorded. -/
def oneJobRecorded : Store :=
  (inTurn perform [.createRun "r" (some "main") springNoon, .recordJob "r" (exitedJob "a" 0)]
    Store.empty.createTables).2

/-- A job with an exit code that does not fit is refused, and leaves nothing once the store is
closed. -/
theorem refused_calls_tooLarge :
    ∃ s', recordJob "r" (exitedJob "a" Cell.wordBound) oneJobRecorded = (.error .tooLarge, s') ∧
      Remnant "r" (exitedJob "a" Cell.wordBound) oneJobRecorded s' ∧
      s'.reopen = oneJobRecorded.reopen := by
  have hanswer : (recordJob "r" (exitedJob "a" Cell.wordBound) oneJobRecorded).1 =
      .error .tooLarge := by decide +kernel
  rcases hcall : recordJob "r" (exitedJob "a" Cell.wordBound) oneJobRecorded with ⟨answer, s'⟩
  rw [hcall] at hanswer
  obtain rfl : answer = .error .tooLarge := hanswer
  exact ⟨s', rfl, (refused_calls oneJobRecorded).2.2 _ _ _ _ hcall⟩

/-- How many steps are recorded of each job of a run. -/
def stepCounts (s : Store) (runId : Text) : Except StoreFault (Option (List Nat)) :=
  (s.getRun runId).map (Option.map fun run => run.jobs.map fun j => j.steps.length)

/-- The job is recorded once more with an exit code that does not fit. That is refused, but the
step that was recorded before is gone, and stays so after the next commit and when the store is
opened again. -/
theorem refused_recording_forgets :
    (recordJob "r" (exitedJob "a" Cell.wordBound) oneJobRecorded).1 = .error .tooLarge ∧
      oneJobRecorded.stepCounts "r" = .ok (some [1]) ∧
      (inTurn perform [.recordJob "r" (exitedJob "a" Cell.wordBound),
          .createRun "s" none springNoon,
        .reopen] oneJobRecorded).2.stepCounts "r" = .ok (some [0]) := by
  decide +kernel

end Store

end Conveyor
