import Conveyor.Proofs.Activity.Keeps
import Conveyor.Proofs.Step.Running

/-!
# The unit of a job and its time

A job has its unit to itself. While the steps run, its scripts are executed in it one after
another; and what they take, all together, is no more than the time that has passed.

- `Note.ofUnit`, `unitNotes`: what the notes tell of the unit.
- `tenancy`: a unit that was acquired, and in which some scripts were executed one after another.
- `spentMs`: the time that some steps took, all together.
- `Occupied`, `Vacant`: a script is being executed in the unit, and none is.
- `StepContext.keeps_runSteps`: **while the steps run, the unit is occupied; afterwards it is
  vacant**.
-/

namespace Conveyor

open Activity

/-! ## Notes of the unit -/

/-- Does the note tell of the unit of a job? -/
def Note.ofUnit : Note → Bool
  | .acquired | .began .. | .ended | .releasing => true
  | _ => false

/-- What some notes tell of the unit. -/
def unitNotes (ns : List Note) : List Note := ns.filter Note.ofUnit

/-- A unit was acquired, and some scripts were executed in it, each after the one before. -/
def tenancy (calls : List (Text × Bindings)) : List Note :=
  .acquired :: calls.flatMap fun c => [.began c.1 c.2, .ended]

/-- The time that some steps took, all together. -/
def spentMs : List StepResult → Nat
  | [] => 0
  | r :: rest => r.durationMs + spentMs rest

@[simp] theorem unitNotes_append (ms ns : List Note) :
    unitNotes (ms ++ ns) = unitNotes ms ++ unitNotes ns := List.filter_append ..

theorem unitNotes_eq_nil {ns : List Note} (h : ∀ n ∈ ns, n.ofUnit = false) :
    unitNotes ns = [] := by
  refine List.filter_eq_nil_iff.2 fun n hn => ?_
  rw [h n hn]
  exact Bool.false_ne_true

theorem Note.ofUnit_of_outside {n : Note} (h : n.outside = true) : n.ofUnit = false := by
  cases n <;> first | rfl | cases h

theorem unitNotes_outside {ns : List Note} (h : ∀ n ∈ ns, n.outside = true) :
    unitNotes ns = [] :=
  unitNotes_eq_nil fun n hn => Note.ofUnit_of_outside (h n hn)

@[simp] theorem unitNotes_recorded (rs : List StepResult) : unitNotes (rs.map Note.recorded) =
    [] := by
  refine unitNotes_eq_nil fun n hn => ?_
  obtain ⟨r, -, rfl⟩ := List.mem_map.1 hn
  rfl

theorem tenancy_snoc (calls : List (Text × Bindings)) (script : Text) (env : Bindings) :
    tenancy (calls ++ [(script, env)]) = tenancy calls ++ [.began script env, .ended] := by
  simp [tenancy]

/-! ## Time -/

@[simp] theorem spentMs_append (rs qs : List StepResult) :
    spentMs (rs ++ qs) = spentMs rs + spentMs qs := by
  induction rs with
  | nil => simp [spentMs]
  | cons r rest ih =>
    show r.durationMs + spentMs (rest ++ qs) = r.durationMs + spentMs rest + spentMs qs
    omega

@[simp] theorem spentMs_singleton (r : StepResult) : spentMs [r] = r.durationMs := rfl

/-- Steps that were skipped took no time. -/
@[simp] theorem spentMs_skippedFrom (index : Nat) (steps : List StepSpec) :
    spentMs (skippedFrom index steps) = 0 := by
  induction steps generalizing index with
  | nil => rfl
  | cons step rest ih =>
    show 0 + spentMs (skippedFrom (index + 1) rest) = 0
    rw [ih]

@[simp] theorem durationMs_ofEnding (index : Nat) (step : StepSpec) (duration : Nat)
    (output : OutputBuffer) (e : Ending Int) :
    (StepResult.ofEnding index step duration output e).durationMs = duration := by
  cases e <;> rfl

/-! ## Steps in a unit -/

/-- The recorded steps took no more than the time that has passed since `start`. -/
def Paced (start time : Nat) (ns : List Note) : Prop :=
  start + nanosPerMilli * spentMs (recordedAmong ns) ≤ time

theorem Paced.later {start time time' : Nat} {ns : List Note} (h : Paced start time ns)
    (ht : time ≤ time') : Paced start time' ns := Nat.le_trans h ht

/-- A script is being executed in the unit. -/
def Occupied (start time : Nat) (ns : List Note) : Prop :=
  Paced start time ns ∧ ∃ calls script env, unitNotes ns = tenancy calls ++ [.began script env]

/-- No script is being executed in the unit. -/
def Vacant (start time : Nat) (ns : List Note) : Prop :=
  Paced start time ns ∧ ∃ calls, unitNotes ns = tenancy calls

/-- Only what was recorded and what is told of the unit matters. -/
theorem Paced.congr {start time : Nat} {ns ns' : List Note} (h : Paced start time ns)
    (hr : recordedAmong ns' = recordedAmong ns) : Paced start time ns' := by
  unfold Paced
  rw [hr]
  exact h

theorem Vacant.congr {start time : Nat} {ns ns' : List Note} (h : Vacant start time ns)
    (hr : recordedAmong ns' = recordedAmong ns) (hu : unitNotes ns' = unitNotes ns) :
    Vacant start time ns' := by
  refine ⟨h.1.congr hr, ?_⟩
  rw [hu]
  exact h.2

namespace StepContext

variable {Q : Nat → List Note → Prop}

/-- Recording results shows them, at once. -/
theorem keeps_recordAll {P : Nat → List Note → Ending Unit → Prop} (rs : List StepResult)
    {t : Nat}
    {ns : List Note} (h : P t (ns ++ rs.map Note.recorded) (.done ())) :
    (recordAll rs).Keeps Q P t ns := by
  induction rs generalizing ns with
  | nil =>
    rw [List.map_nil, List.append_nil] at h
    exact h
  | cons r rs ih =>
    refine ih ?_
    simpa [NoteKind.toNote, StepNote.toNote] using h

/-- Logging how a step ended adds only what could be done outside. -/
theorem keeps_logEnding {P : Nat → List Note → Ending Unit → Prop} (k : StepContext)
    (step : StepSpec)
    (e : Ending Int) {t : Nat} {ns : List Note}
    (h : ∀ ms : List Note, (∀ n ∈ ms, n.outside = true) → P t (ns ++ ms) (.done ())) :
    (k.logEnding step e).Keeps Q P t ns := by
  have hnil := h [] (by simp)
  rw [List.append_nil] at hnil
  cases e with
  | done code => exact hnil
  | interrupted => exact hnil
  | failed fault =>
    rw [logEnding]
    split
    · exact hnil
    · refine h [_] fun n hn => ?_
      rw [List.mem_singleton.1 hn]
      rfl

/-- What is done outside tells nothing of the unit, and records nothing. -/
theorem vacant_outside {start t : Nat} {ns ms : List Note} (h : Vacant start t ns)
    (hms : ∀ n ∈ ms, n.outside = true) : Vacant start t (ns ++ ms) := by
  refine h.congr (among_outside ns hms).1 ?_
  rw [unitNotes_append, unitNotes_outside hms, List.append_nil]

/-- Steps that were skipped are recorded. -/
theorem vacant_skipped {start t : Nat} {ns : List Note} (h : Vacant start t ns) (index : Nat)
    (steps : List StepSpec) :
    Vacant start t (ns ++ (skippedFrom index steps).map Note.recorded) := by
  obtain ⟨hpace, calls, hcalls⟩ := h
  refine ⟨?_, calls, ?_⟩
  · unfold Paced at hpace ⊢
    simpa using hpace
  · rw [unitNotes_append, unitNotes_recorded, List.append_nil]
    exact hcalls

/-- Running one step: while its script is executed the unit is occupied, and the result says how
long that took. -/
theorem keeps_runStep {P : Nat → List Note → Ending (StepResult × Bool) → Prop} (k : StepContext)
    (index : Nat) (step : StepSpec) (env : Bindings) {start t : Nat} {ns : List Note}
    (h : Vacant start t ns)
    (hP : ∀ t' ms r b, Vacant start t' ms → Paced start t' (ms ++ [.recorded r]) →
      P t' ms (.done (r, b))) :
    (k.runStep index step env).Keeps (Occupied start) P t ns := by
  obtain ⟨hpace, calls, hcalls⟩ := h
  -- The notes from the beginning of the script on.
  have hbegun : ∀ ms : List Note, (∀ n ∈ ms, n.outside = true) →
      recordedAmong (ns ++ [.began step.script (stepEnv env step)] ++ ms) = recordedAmong ns ∧
      unitNotes (ns ++ [.began step.script (stepEnv env step)] ++ ms) =
        tenancy calls ++ [.began step.script (stepEnv env step)] := by
    intro ms hms
    refine ⟨(among_outside _ hms).1.trans (by simp [recordedAmong]), ?_⟩
    rw [unitNotes_append, unitNotes_append, unitNotes_outside hms, hcalls, List.append_nil]
    rfl
  refine Keeps.bind (Keeps.bind (Keeps.bind ?_))
  refine keeps_collect (fun t' ht ms hms => ?_) (fun t' ht output e ms hms => ?_) _ _
  · obtain ⟨hr, hu⟩ := hbegun ms hms
    exact ⟨(hpace.later ht).congr hr, calls, _, _, hu⟩
  · obtain ⟨hr, hu⟩ := hbegun ms hms
    refine Keeps.bind (Keeps.bind (Keeps.bind (keeps_logEnding k step e fun ms' hms' => ?_)))
    have hvacant : Vacant start t' (ns ++ [.began step.script (stepEnv env step)] ++ ms ++
        [.ended]) := by
      refine ⟨(hpace.later ht).congr ?_, calls ++ [(step.script, stepEnv env step)], ?_⟩
      · rw [recordedAmong_append, hr]
        exact List.append_nil _
      · rw [unitNotes_append, hu, tenancy_snoc, List.append_assoc]
        rfl
    have hended := vacant_outside hvacant hms'
    refine hP t' _ _ _ hended ?_
    have hrec : recordedAmong (ns ++ [.began step.script (stepEnv env step)] ++ ms ++
        [.ended] ++ ms') =
        recordedAmong ns := by
      rw [(among_outside _ hms').1, recordedAmong_append, hr]
      exact List.append_nil _
    show start + nanosPerMilli * spentMs (recordedAmong (_ ++ [Note.recorded _])) ≤ t'
    rw [recordedAmong_append]
    erw [hrec]
    have hdiv : nanosPerMilli * ((t' - t) / nanosPerMilli) ≤ t' - t := Nat.mul_div_le _ _
    unfold Paced at hpace
    simp only [recordedAmong, spentMs_append, spentMs_singleton, durationMs_ofEnding,
      Nat.mul_add]
    omega

/-- Looking at the cancellation of the run takes no time. -/
theorem keeps_asked {α : Type} {P : Nat → List Note → Ending α → Prop} (k : StepContext)
    {f : Bool → Activity StepNote α} {t : Nat} {ns : List Note} (h : ∀ c, (f c).Keeps Q P t ns) :
    (if k.watchesCancel then isCanceled >>= f else Activity.done false >>= f).Keeps Q P t
    ns := by
  split
  · exact Keeps.bind h
  · exact Keeps.bind (h false)

/-- Running the steps from any of them on. -/
theorem keeps_runFrom (k : StepContext) (env : Bindings) (index : Nat) (steps : List StepSpec)
    {start t : Nat} {ns : List Note} (h : Vacant start t ns) :
    (k.runFrom env index steps).Keeps (Occupied start) (fun t ns _ => Vacant start t ns) t
    ns := by
  induction steps generalizing index t ns with
  | nil => exact h
  | cons step rest ih =>
    have hlog : ∀ {t ns} (message : Text), Vacant start t ns →
        Vacant start t (ns ++ [.log .info message]) :=
      fun message hv => vacant_outside hv (by simp [Note.outside])
    rw [runFrom]
    refine keeps_asked k fun canceled => ?_
    cases canceled with
    | true => exact Keeps.bind (keeps_recordAll _ (vacant_skipped h _ _))
    | false =>
      refine Keeps.bind (Keeps.bind (keeps_runStep k index step env (hlog _ h) ?_))
      rintro t' ms r interrupted ⟨-, calls, hcalls⟩ hpace
      have hvacant : Vacant start t' (ms ++ [.recorded r]) := by
        refine ⟨hpace, calls, ?_⟩
        rw [unitNotes_append, hcalls]
        exact List.append_nil _
      refine Keeps.bind ?_
      show Keeps _ _ (if interrupted = true then _ else _) t' (ms ++ [.recorded r])
      split
      · exact Keeps.bind (keeps_recordAll _ (vacant_skipped hvacant _ _))
      · split
        · exact ih (index + 1) hvacant
        · exact Keeps.bind (Keeps.bind (keeps_recordAll _ (vacant_skipped (hlog _ hvacant) _ _)))

/-- **While the steps of a job run, its unit is occupied, and afterwards it is vacant**, whatever
the executor does and however long it takes. -/
theorem keeps_runSteps (k : StepContext) (env : Bindings) (steps : List StepSpec) {start t : Nat}
    {ns : List Note} (h : Vacant start t ns) :
    (k.runSteps env steps).Keeps (Occupied start) (fun t ns _ => Vacant start t ns) t ns := by
  rw [runSteps]
  split
  · exact h
  · exact keeps_runFrom k _ 0 steps h

end StepContext

end Conveyor
