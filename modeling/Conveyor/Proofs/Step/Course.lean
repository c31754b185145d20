import Conveyor.Schedule.Flight
import Conveyor.Step.Runner

/-!
# The course of a job's steps

Steps run in order, the first that does not succeed is the last that runs, and every other step
is skipped. The results are recorded one by one, and a job may be given up while a step is still
under way; what has no result then is added as skipped.

- `Labeled`: results that belong to some steps, in order.
- `Course`: how the steps of a job went so far: the results, the scripts that began, and the
  ending if there is one.
- `Accounted`: every step has its result, in order, and the statuses are successes, then at most
  one that did not get through, then skipped ones.
- `Course.accounted`: **whatever the course, the completed results are accounted for**.
-/

namespace Conveyor

/-! ## Results of steps, in order -/

/-- Results for steps, in order: each has the index and the name of its step. -/
inductive Labeled : Nat → List StepSpec → List StepResult → Prop
  | nil (k : Nat) : Labeled k [] []
  | cons {k : Nat} {s : StepSpec} {ss : List StepSpec} {r : StepResult} {rs : List StepResult}
      (index : r.index = k) (name : r.displayName = s.displayName)
      (rest : Labeled (k + 1) ss rs) :
      Labeled k (s :: ss) (r :: rs)

theorem Labeled.append {k : Nat} {ss ss' : List StepSpec} {rs rs' : List StepResult}
    (h : Labeled k ss rs) (h' : Labeled (k + ss.length) ss' rs') :
    Labeled k (ss ++ ss') (rs ++ rs') := by
  induction h with
  | nil k => exact h'
  | @cons k s ss r rs index name rest ih =>
    have hk : k + (s :: ss).length = k + 1 + ss.length := by
      rw [List.length_cons]
      omega
    rw [hk] at h'
    exact .cons index name (ih h')

/-- Skipped steps have their results, in order. -/
theorem labeled_skippedFrom (k : Nat) (ss : List StepSpec) :
    Labeled k ss (skippedFrom k ss) := by
  induction ss generalizing k with
  | nil => exact .nil k
  | cons s ss ih => exact .cons rfl rfl (ih (k + 1))

/-- Results for the first steps, with those of the others, which were skipped. -/
theorem Labeled.append_skippedFrom {front : List StepSpec} {rs : List StepResult}
    (h : Labeled 0 front rs) (back : List StepSpec) :
    Labeled 0 (front ++ back) (rs ++ skippedFrom front.length back) := by
  refine h.append ?_
  rw [Nat.zero_add]
  exact labeled_skippedFrom _ back

theorem exists_of_mem_skippedFrom {k : Nat} {ss : List StepSpec} {r : StepResult}
    (h : r ∈ skippedFrom k ss) : ∃ j name, r = .skipped j name := by
  induction ss generalizing k with
  | nil => cases h
  | cons s ss ih =>
    rcases List.mem_cons.1 h with rfl | h
    · exact ⟨_, _, rfl⟩
    · exact ih h

theorem Labeled.length_eq {k : Nat} {ss : List StepSpec} {rs : List StepResult}
    (h : Labeled k ss rs) : rs.length = ss.length := by
  induction h with
  | nil k => rfl
  | cons index name rest ih => rw [List.length_cons, List.length_cons, ih]

theorem Labeled.map_displayName {k : Nat} {ss : List StepSpec} {rs : List StepResult}
    (h : Labeled k ss rs) : rs.map StepResult.displayName = ss.map StepSpec.displayName := by
  induction h with
  | nil k => rfl
  | cons index name rest ih => rw [List.map_cons, List.map_cons, name, ih]

theorem Labeled.map_index {k : Nat} {ss : List StepSpec} {rs : List StepResult}
    (h : Labeled k ss rs) :
    rs.map StepResult.index = (List.range' k ss.length).map fun j : Nat => (j : Int) := by
  induction h with
  | nil k => rfl
  | cons index name rest ih =>
    rw [List.map_cons, index, ih, List.length_cons, List.range'_succ, List.map_cons]

/-! ## Completing recorded results -/

/-- A step has a result among labeled ones iff its index is in their range. -/
theorem Labeled.any_index {k : Nat} {ss : List StepSpec} {rs : List StepResult}
    (h : Labeled k ss rs) (j : Nat) :
    (rs.any fun r => r.index = (j : Int)) = decide (k ≤ j ∧ j < k + ss.length) := by
  have hmem : (rs.any fun r => r.index = (j : Int)) = true ↔
      (j : Int) ∈ rs.map StepResult.index := by
    simp [List.any_eq_true]
  rw [Bool.eq_iff_iff, hmem, h.map_index, decide_eq_true_iff, List.mem_map]
  constructor
  · rintro ⟨i, hi, hij⟩
    rw [← Int.ofNat_inj.1 hij]
    exact List.mem_range'_1.1 hi
  · intro hj
    exact ⟨j, List.mem_range'_1.2 hj, rfl⟩

theorem missingFrom_append (rs : List StepResult) (k : Nat) (ss ss' : List StepSpec) :
    missingFrom rs k (ss ++ ss') = missingFrom rs k ss ++ missingFrom rs (k + ss.length)
    ss' := by
  induction ss generalizing k with
  | nil => rfl
  | cons s ss ih =>
    have hk : k + (s :: ss).length = k + 1 + ss.length := by
      rw [List.length_cons]
      omega
    rw [List.cons_append, missingFrom, missingFrom, ih, hk]
    split
    · rfl
    · rfl

/-- Steps that all have results are not missing. -/
theorem missingFrom_eq_nil {rs : List StepResult} {k : Nat} {ss : List StepSpec}
    (h : ∀ j, k ≤ j → j < k + ss.length → (rs.any fun r => r.index = (j : Int)) = true) :
    missingFrom rs k ss = [] := by
  induction ss generalizing k with
  | nil => rfl
  | cons s ss ih =>
    have hk := h k (Nat.le_refl k) (by simp)
    rw [missingFrom, hk]
    refine ih fun j hj hj' => h j (by omega) ?_
    rw [List.length_cons]
    omega

/-- Steps of which none has a result are all missing. -/
theorem missingFrom_eq_skippedFrom {rs : List StepResult} {k : Nat} {ss : List StepSpec}
    (h : ∀ j, k ≤ j → j < k + ss.length → (rs.any fun r => r.index = (j : Int)) = false) :
    missingFrom rs k ss = skippedFrom k ss := by
  induction ss generalizing k with
  | nil => rfl
  | cons s ss ih =>
    have hk := h k (Nat.le_refl k) (by simp)
    have hrest : missingFrom rs (k + 1) ss = skippedFrom (k + 1) ss := by
      refine ih fun j hj hj' => h j (by omega) ?_
      rw [List.length_cons]
      omega
    rw [missingFrom, hk, hrest, skippedFrom]
    rfl

/-- Results for the first steps are completed by skipping the others. -/
theorem completeSteps_of_labeled {front : List StepSpec} {rs : List StepResult}
    (h : Labeled 0 front rs) (back : List StepSpec) :
    completeSteps (front ++ back) rs = rs ++ skippedFrom front.length back := by
  have hfront : missingFrom rs 0 front = [] := by
    refine missingFrom_eq_nil fun j hj hj' => ?_
    rw [h.any_index, decide_eq_true_iff]
    exact ⟨hj, hj'⟩
  have hback : missingFrom rs front.length back = skippedFrom front.length back := by
    refine missingFrom_eq_skippedFrom fun j hj hj' => ?_
    rw [h.any_index, decide_eq_false_iff_not]
    omega
  rw [completeSteps, missingFrom_append, hfront, Nat.zero_add, hback, List.nil_append]

/-- Results for all steps are complete. -/
theorem completeSteps_of_all {steps : List StepSpec} {rs : List StepResult}
    (h : Labeled 0 steps rs) : completeSteps steps rs = rs := by
  have hc := completeSteps_of_labeled h []
  rw [List.append_nil] at hc
  rw [hc, skippedFrom, List.append_nil]

/-- A result that belongs to no step is completed by skipping all steps. -/
theorem completeSteps_of_foreign {r : StepResult} (h : r.index < 0) (steps : List StepSpec) :
    completeSteps steps [r] = r :: skippedFrom 0 steps := by
  have hall : missingFrom [r] 0 steps = skippedFrom 0 steps := by
    refine missingFrom_eq_skippedFrom fun j hj hj' => ?_
    have hne : r.index ≠ (j : Int) := by omega
    simp [hne]
  rw [completeSteps, hall, List.singleton_append]

/-! ## Courses -/

/-- The steps all succeeded, with these results. -/
def Passed (steps : List StepSpec) (rs : List StepResult) : Prop :=
  Labeled 0 steps rs ∧ ∀ r ∈ rs, r.status = .success ∧ r.exitCode = some 0

/-- How the steps of a job went so far: the results, the scripts that began, and the ending, if
there is one already. -/
inductive Course (steps : List StepSpec) :
    List StepResult → List Text → Option (Ending Bool) → Prop
  /-- A step is under way. -/
  | underway {front back : List StepSpec} {step : StepSpec} {rs : List StepResult}
      (split : steps = front ++ step :: back) (passed : Passed front rs) :
      Course steps rs ((front ++ [step]).map StepSpec.script) none
  /-- All steps succeeded. -/
  | passed {rs : List StepResult} (passed : Passed steps rs) :
      Course steps rs (steps.map StepSpec.script) (some (.done true))
  /-- A step failed or was interrupted, and the others were skipped. -/
  | broken {front back : List StepSpec} {step : StepSpec} {rs : List StepResult} {r : StepResult}
      {ending : Ending Bool} (split : steps = front ++ step :: back) (passed : Passed front rs)
      (index : r.index = front.length) (name : r.displayName = step.displayName)
      (status : r.status = .failed ∧ ending = .done false ∨
        r.status = .interrupted ∧ ending = .interrupted) :
      Course steps (rs ++ r :: skippedFrom (front.length + 1) back)
        ((front ++ [step]).map StepSpec.script) (some ending)
  /-- The run was canceled between two steps, and the others were skipped. -/
  | canceled {front back : List StepSpec} {rs : List StepResult} {fault : Fault}
      (split : steps = front ++ back) (passed : Passed front rs)
      (cancellation : fault.isCancellation = true) :
      Course steps (rs ++ skippedFrom front.length back) (front.map StepSpec.script)
        (some (.failed fault))
  /-- The steps could not be started on. -/
  | unread {fault : Fault} (crash : fault.isCancellation = false) :
      Course steps [] [] (some (.failed fault))

/-- Every step has its result, in order; they are successes, then at most one that did not get
through, then steps that were skipped. -/
structure Accounted (steps : List StepSpec) (rs : List StepResult) : Prop where
  indices : rs.map StepResult.index = (List.range steps.length).map fun j : Nat => (j : Int)
  names : rs.map StepResult.displayName = steps.map StepSpec.displayName
  statuses : ∃ successes broken skipped, rs.map StepResult.status =
    List.replicate successes .success ++ broken ++ List.replicate skipped .skipped ∧
    (broken = [] ∨ broken = [.failed] ∨ broken = [.interrupted])

theorem passed_nil : Passed [] [] := ⟨.nil 0, by simp⟩

/-- One more step succeeded. -/
theorem Passed.snoc {front : List StepSpec} {rs : List StepResult} (h : Passed front rs)
    {step : StepSpec} {r : StepResult} (index : r.index = front.length)
    (name : r.displayName = step.displayName) (status : r.status = .success)
    (code : r.exitCode = some 0) : Passed (front ++ [step]) (rs ++ [r]) := by
  refine ⟨h.1.append ?_, fun q hq => ?_⟩
  · rw [Nat.zero_add]
    exact .cons index name (.nil _)
  · rcases List.mem_append.1 hq with hq | hq
    · exact h.2 q hq
    · rw [List.mem_singleton.1 hq]
      exact ⟨status, code⟩

theorem Passed.map_status {steps : List StepSpec} {rs : List StepResult} (h : Passed steps rs) :
    rs.map StepResult.status = List.replicate rs.length .success := by
  rw [List.eq_replicate_iff, List.length_map]
  refine ⟨rfl, fun s hs => ?_⟩
  obtain ⟨r, hr, rfl⟩ := List.mem_map.1 hs
  exact (h.2 r hr).1

theorem map_status_skippedFrom (k : Nat) (ss : List StepSpec) :
    (skippedFrom k ss).map StepResult.status = List.replicate ss.length .skipped := by
  induction ss generalizing k with
  | nil => rfl
  | cons s ss ih =>
    rw [skippedFrom, List.map_cons, ih, List.length_cons, List.replicate_succ]
    rfl

/-- Successes, then steps that were skipped: all have their results. -/
theorem Passed.labeled {front : List StepSpec} {rs : List StepResult} (h : Passed front rs)
    (back : List StepSpec) : Labeled 0 (front ++ back) (rs ++ skippedFrom front.length back) :=
  h.1.append_skippedFrom back

theorem Passed.accounted {front : List StepSpec} {rs : List StepResult} (h : Passed front rs)
    (back : List StepSpec) : Accounted (front ++ back)
    (rs ++ skippedFrom front.length back) := by
  have hl := h.labeled back
  refine ⟨?_, hl.map_displayName, rs.length, [], back.length, ?_, .inl rfl⟩
  · rw [hl.map_index, List.range_eq_range']
  · rw [List.map_append, h.map_status, map_status_skippedFrom, List.append_nil]

/-- Successes, a step that did not get through, and steps that were skipped: all have their
results. -/
theorem Passed.labeled_broken {front : List StepSpec} {rs : List StepResult}
    (h : Passed front rs)
    {step : StepSpec} {r : StepResult} (index : r.index = front.length)
    (name : r.displayName = step.displayName) (back : List StepSpec) :
    Labeled 0 (front ++ step :: back) (rs ++ r :: skippedFrom (front.length + 1) back) := by
  refine h.1.append ?_
  rw [Nat.zero_add]
  exact .cons index name (labeled_skippedFrom _ back)

theorem Passed.accounted_broken {front : List StepSpec} {rs : List StepResult}
    (h : Passed front rs) {step : StepSpec} {r : StepResult} (index : r.index = front.length)
    (name : r.displayName = step.displayName)
    (status : r.status = .failed ∨ r.status = .interrupted) (back : List StepSpec) :
    Accounted (front ++ step :: back) (rs ++ r :: skippedFrom (front.length + 1) back) := by
  have hl := h.labeled_broken index name back
  refine ⟨?_, hl.map_displayName, rs.length, [r.status], back.length, ?_, ?_⟩
  · rw [hl.map_index, List.range_eq_range']
  · rw [List.map_append, List.map_cons, h.map_status, map_status_skippedFrom, List.append_assoc,
      List.singleton_append]
  · rcases status with hs | hs
    · exact .inr (.inl (by rw [hs]))
    · exact .inr (.inr (by rw [hs]))

/-- Steps of which none was recorded are accounted for as skipped. -/
theorem accounted_skippedFrom (steps : List StepSpec) :
    Accounted steps (skippedFrom 0 steps) := by
  simpa using passed_nil.accounted steps

/-- **Whatever the course of the steps, the completed results are accounted for.** -/
theorem Course.accounted {steps : List StepSpec} {rs : List StepResult} {scripts : List Text}
    {ending : Option (Ending Bool)} (h : Course steps rs scripts ending) :
    Accounted steps (completeSteps steps rs) := by
  cases h with
  | @underway front back step rs split passed =>
    rw [split, completeSteps_of_labeled passed.1]
    exact passed.accounted (step :: back)
  | passed passed =>
    have ha := passed.accounted []
    rw [List.append_nil, skippedFrom, List.append_nil] at ha
    rw [completeSteps_of_all passed.1]
    exact ha
  | @broken front back step rs r ending split passed index name status =>
    rw [split, completeSteps_of_all (passed.labeled_broken index name back)]
    exact passed.accounted_broken index name (status.imp And.left And.left) back
  | @canceled front back rs fault split passed cancellation =>
    rw [split, completeSteps_of_all (passed.labeled back)]
    exact passed.accounted back
  | unread crash =>
    rw [show completeSteps steps [] = skippedFrom 0 steps from
      completeSteps_of_labeled (.nil 0) steps]
    exact accounted_skippedFrom steps

end Conveyor
