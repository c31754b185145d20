import Conveyor.Proofs.Activity.Alike
import Conveyor.Proofs.Step.Course
import Conveyor.Schedule.Desk

/-!
# Running the steps takes a course

The activity that runs the steps of a job shows which scripts begin and which results are
recorded. At each of its waits, and at its end, these notes are a course of the steps; and it
says that the run was canceled only if it was.

- `begunAmong`: the scripts that begin among some notes.
- `OnCourse`, `OffCourse`: what the notes say while the steps run, and when they are over.
- `StepContext.upholds_runSteps`: **running the steps upholds that**, whatever the executor does.
- `StepContext.alike_runSteps`: the steps do the same at another time.
-/

namespace Conveyor

open Activity

/-! ## Results and scripts among notes -/

/-- The scripts that begin among some notes. -/
def begunAmong : List Note → List Text
  | [] => []
  | .began script _ :: rest => script :: begunAmong rest
  | _ :: rest => begunAmong rest

@[simp] theorem begunAmong_append (ms ns : List Note) :
    begunAmong (ms ++ ns) = begunAmong ms ++ begunAmong ns := by
  fun_induction begunAmong ms <;> simp_all [begunAmong]

@[simp] theorem recordedAmong_append (ms ns : List Note) :
    recordedAmong (ms ++ ns) = recordedAmong ms ++ recordedAmong ns := by
  fun_induction recordedAmong ms <;> simp_all [recordedAmong]

@[simp] theorem begunAmong_recorded (rs : List StepResult) :
    begunAmong (rs.map Note.recorded) = [] := by
  induction rs with
  | nil => rfl
  | cons r rs ih => simpa [begunAmong] using ih

@[simp] theorem recordedAmong_recorded (rs : List StepResult) :
    recordedAmong (rs.map Note.recorded) = rs := by
  induction rs with
  | nil => rfl
  | cons r rs ih => simp [recordedAmong, ih]

/-- Nothing that is done outside begins a script of the job. -/
theorem begunAmong_outside {ns : List Note} (h : ∀ n ∈ ns, n.outside = true) :
    begunAmong ns = [] := by
  fun_induction begunAmong ns with
  | case1 => rfl
  | case2 script env rest ih => simp [Note.outside] at h
  | case3 n rest hn ih => exact ih fun m hm => h m (List.mem_cons_of_mem n hm)

/-- Nothing that is done outside records a result. -/
theorem recordedAmong_outside {ns : List Note} (h : ∀ n ∈ ns, n.outside = true) :
    recordedAmong ns = [] := by
  fun_induction recordedAmong ns with
  | case1 => rfl
  | case2 r rest ih => simp [Note.outside] at h
  | case3 n rest hn ih => exact ih fun m hm => h m (List.mem_cons_of_mem n hm)

/-! ## The course in the notes -/

/-- While the steps run, a step is under way. -/
def OnCourse (steps : List StepSpec) (ns : List Note) : Prop :=
  Course steps (recordedAmong ns) (begunAmong ns) none

/-- When the steps are over, their course has an ending; it tells of a cancellation only if the
run is canceled. -/
def OffCourse (steps : List StepSpec) (c : Bool) (ns : List Note) (e : Ending Bool) : Prop :=
  Course steps (recordedAmong ns) (begunAmong ns) (some e) ∧
    ∀ fault, e = .failed fault → fault.isCancellation = true → c = true

namespace StepContext

variable {Q : List Note → Prop}

/-- Recording results shows them. -/
theorem upholds_recordAll {P : Bool → List Note → Ending Unit → Prop} (rs : List StepResult)
    {c : Bool} {ns : List Note} (h : P c (ns ++ rs.map Note.recorded) (.done ())) :
    (recordAll rs).Upholds Q P c ns := by
  induction rs generalizing ns with
  | nil =>
    rw [List.map_nil, List.append_nil] at h
    exact h
  | cons r rs ih =>
    refine ⟨fun hr => ?_, ih ?_⟩
    · simp [NoteKind.toNote, StepNote.toNote, Note.begins] at hr
    · simpa [NoteKind.toNote, StepNote.toNote] using h

/-- Logging how a step ended adds only what could be done outside. -/
theorem upholds_logEnding {P : Bool → List Note → Ending Unit → Prop} (k : StepContext)
    (step : StepSpec) (e : Ending Int) {c : Bool} {ns : List Note}
    (h : ∀ ms : List Note, (∀ n ∈ ms, n.outside = true) → P c (ns ++ ms) (.done ())) :
    (k.logEnding step e).Upholds Q P c ns := by
  have hnil := h [] (by simp)
  rw [List.append_nil] at hnil
  cases e with
  | done code => exact hnil
  | interrupted => exact hnil
  | failed fault =>
    rw [logEnding]
    split
    · exact hnil
    · refine ⟨fun hb => ?_, h [_] ?_⟩
      · simp [NoteKind.toNote, NoteKind.ofDeed, StepNote.toNote, Deed.toNote, Note.begins] at hb
      · intro n hn
        rw [List.mem_singleton.1 hn]
        rfl

/-- The scripts that begin and the results that are recorded do not change by what is done
outside. -/
theorem among_outside (ns : List Note) {ms : List Note} (h : ∀ n ∈ ms, n.outside = true) :
    recordedAmong (ns ++ ms) = recordedAmong ns ∧ begunAmong (ns ++ ms) = begunAmong ns := by
  rw [recordedAmong_append, begunAmong_append, recordedAmong_outside h, begunAmong_outside h,
    List.append_nil, List.append_nil]
  exact ⟨rfl, rfl⟩

/-- Running one step: its script begins, and the result has its index and its name. -/
theorem upholds_runStep {P : Bool → List Note → Ending (StepResult × Bool) → Prop}
    (k : StepContext) (index : Nat) (step : StepSpec) (env : Bindings) {ns : List Note}
    (hQ : ∀ ms, recordedAmong ms = recordedAmong ns → begunAmong ms = begunAmong ns ++
        [step.script] →
      Q ms)
    (hP : ∀ c ms duration output e, recordedAmong ms = recordedAmong ns →
      begunAmong ms = begunAmong ns ++ [step.script] →
      P c ms (.done (StepResult.ofEnding index step duration output e, match e with
        | .interrupted => true
        | _ => false))) :
    (k.runStep index step env).Upholds Q P false ns := by
  have hbegan : recordedAmong (ns ++ [Note.began step.script (stepEnv env step)]) =
      recordedAmong ns ∧ begunAmong (ns ++ [Note.began step.script (stepEnv env step)]) =
      begunAmong ns ++ [step.script] := by simp [recordedAmong, begunAmong]
  refine Upholds.bind fun started => Upholds.bind ⟨fun _ => rfl, Upholds.bind ?_⟩
  refine upholds_collect (fun ms hms => ?_) (fun c output e ms hms => ?_) _ _ _
  · obtain ⟨hr, hb⟩ := among_outside (ns ++ [.began step.script (stepEnv env step)]) hms
    exact hQ _ (hr.trans hbegan.1) (hb.trans hbegan.2)
  · obtain ⟨hr, hb⟩ := among_outside (ns ++ [.began step.script (stepEnv env step)]) hms
    refine Upholds.bind ⟨fun h => ?_, Upholds.bind fun finished => Upholds.bind ?_⟩
    · simp [NoteKind.toNote, StepNote.toNote, Note.begins] at h
    · refine upholds_logEnding k step e fun ms' hms' => ?_
      obtain ⟨hr', hb'⟩ := among_outside
        (ns ++ [.began step.script (stepEnv env step)] ++ ms ++ [.ended]) hms'
      refine hP c _ _ output e (hr'.trans ?_) (hb'.trans ?_)
      · simpa [recordedAmong] using hr.trans hbegan.1
      · simpa [begunAmong] using hb.trans hbegan.2

/-- What is skipped after a step that did not get through completes its course. -/
theorem offCourse_broken {steps front back : List StepSpec} {step : StepSpec} {r : StepResult}
    {ns : List Note} {ending : Ending Bool} (split : steps = front ++ step :: back)
    (passed : Passed front (recordedAmong ns))
    (begun : begunAmong ns = (front ++ [step]).map StepSpec.script)
    (index : r.index = front.length) (name : r.displayName = step.displayName)
    (status : r.status = .failed ∧ ending = .done false ∨
      r.status = .interrupted ∧ ending = .interrupted)
    (ms : List Note) (hms : ∀ n ∈ ms, n.outside = true) (c : Bool) :
    OffCourse steps c (ns ++ [.recorded r] ++ ms ++
      (skippedFrom (front.length + 1) back).map Note.recorded) ending := by
  refine ⟨?_, fun fault he _ => ?_⟩
  · have h := Course.broken split passed index name status
    simpa [recordedAmong, begunAmong, recordedAmong_outside hms, begunAmong_outside hms, begun]
      using h
  · rcases status with ⟨-, rfl⟩ | ⟨-, rfl⟩ <;> cases he

section

variable {steps front rest : List StepSpec} {step : StepSpec} {ns : List Note} {r : StepResult}

/-- The run is canceled between two steps: those that are left are skipped. -/
theorem upholds_canceled (k : StepContext) (split : steps = front ++ step :: rest)
    (passed : Passed front (recordedAmong ns)) (begun : begunAmong ns =
        front.map StepSpec.script) :
    (recordAll (skippedFrom front.length (step :: rest)) >>= fun _ =>
      fail (.canceledBefore k.unit.jobId step.displayName)).Upholds (OnCourse steps)
      (OffCourse steps)
      true ns := by
  refine Upholds.bind (upholds_recordAll _ ⟨?_, fun fault _ _ => rfl⟩)
  have hfault : (Fault.canceledBefore k.unit.jobId step.displayName).isCancellation = true := rfl
  have h := Course.canceled split passed hfault
  simpa [begun] using h

/-- A step failed: those after it are skipped. -/
theorem upholds_failed (split : steps = front ++ step :: rest)
    (passed : Passed front (recordedAmong ns))
    (begun : begunAmong ns = (front ++ [step]).map StepSpec.script) (index : r.index =
        front.length)
    (name : r.displayName = step.displayName) (status : r.status = .failed) (message : Text)
    (c : Bool) :
    ((log .info message : Activity StepNote Unit) >>= fun _ =>
      recordAll (skippedFrom (front.length + 1) rest) >>= fun _ => Activity.done false).Upholds
      (OnCourse steps) (OffCourse steps) c (ns ++ [.recorded r]) := by
  refine Upholds.bind ⟨fun h => ?_, Upholds.bind (upholds_recordAll _ ?_)⟩
  · simp [NoteKind.toNote, NoteKind.ofDeed, StepNote.toNote, Deed.toNote, Note.begins] at h
  · exact offCourse_broken split passed begun index name (.inl ⟨status, rfl⟩) [_]
      (by simp [NoteKind.toNote, NoteKind.ofDeed, StepNote.toNote, Deed.toNote, Note.outside]) c

/-- A step was interrupted: those after it are skipped. -/
theorem upholds_interrupted (split : steps = front ++ step :: rest)
    (passed : Passed front (recordedAmong ns))
    (begun : begunAmong ns = (front ++ [step]).map StepSpec.script) (index : r.index =
        front.length)
    (name : r.displayName = step.displayName) (status : r.status = .interrupted) (c : Bool) :
    (recordAll (skippedFrom (front.length + 1) rest) >>= fun _ =>
      (yield : Activity StepNote Bool)).Upholds (OnCourse steps) (OffCourse steps) c
      (ns ++ [.recorded r]) := by
  refine Upholds.bind (upholds_recordAll _ ?_)
  have h := offCourse_broken split passed begun index name (.inr ⟨status, rfl⟩) [] (by simp) c
  rwa [List.append_nil] at h

end

/-- Running the steps from any of them on takes a course, if those before it have passed. -/
theorem upholds_runFrom (k : StepContext) (hwatch : k.watchesCancel = true) (env : Bindings)
    {steps front back : List StepSpec} (split : steps = front ++ back) (c : Bool)
    {ns : List Note}
    (passed : Passed front (recordedAmong ns)) (begun : begunAmong ns =
        front.map StepSpec.script) :
    (k.runFrom env front.length back).Upholds (OnCourse steps) (OffCourse steps) c ns := by
  induction back generalizing front c ns with
  | nil =>
    rw [List.append_nil] at split
    subst split
    refine ⟨?_, fun fault he => ?_⟩
    · rw [begun]
      exact .passed passed
    · cases he
  | cons step rest ih =>
    rw [runFrom, if_pos hwatch]
    show Upholds _ _ (if c = true then _ else _) c ns
    cases c with
    | true =>
      rw [if_pos rfl]
      exact upholds_canceled k split passed begun
    | false =>
      rw [if_neg Bool.false_ne_true]
      refine Upholds.bind ⟨fun _ => rfl, Upholds.bind ?_⟩
      have hout : ∀ n ∈ [Note.log .info ("[" ++ k.unit.jobId ++ "] ▶ " ++ step.displayName)],
          n.outside = true := by simp [Note.outside]
      have hlog := among_outside ns hout
      -- As long as the step runs it is under way, after those that have passed.
      refine upholds_runStep k front.length step env (fun ms hr hb => ?_) ?_
      · have hpassed : Passed front (recordedAmong ms) := by rwa [hr.trans hlog.1]
        have h := Course.underway split hpassed
        rwa [OnCourse, hb.trans (congrArg (· ++ [step.script]) (hlog.2.trans begun)),
          ← List.map_singleton, ← List.map_append]
      · intro c ms duration output e hr hb
        have hpassed : Passed front (recordedAmong ms) := by rwa [hr.trans hlog.1]
        have hbegun : begunAmong ms = (front ++ [step]).map StepSpec.script := by
          rw [hb.trans (congrArg (· ++ [step.script]) (hlog.2.trans begun)), List.map_append]
          rfl
        refine Upholds.bind ⟨fun h => ?_, ?_⟩
        · simp [NoteKind.toNote, StepNote.toNote, Note.begins] at h
        cases e with
        | done code =>
          by_cases hcode : code = 0
          · -- It passed, and those after it are run.
            subst hcode
            have hnext : Passed (front ++ [step]) (recordedAmong (ms ++ [.recorded
                (StepResult.ofEnding front.length step duration output (.done 0))])) := by
              rw [recordedAmong_append]
              exact hpassed.snoc rfl rfl rfl rfl
            have h := ih (by rw [split, List.append_assoc]; rfl) c hnext
              (by rw [begunAmong_append, hbegun]; exact List.append_nil _)
            rw [List.length_append, List.length_singleton] at h
            exact h
          · have hr : (StepResult.ofEnding front.length step duration output
                (.done code)).status =
                .failed := if_neg hcode
            show Upholds _ _ (if false = true then _ else if _ then _ else _) c _
            rw [if_neg Bool.false_ne_true, if_neg (by rw [hr]; decide)]
            exact upholds_failed split hpassed hbegun rfl rfl hr _ c
        | failed fault => exact upholds_failed split hpassed hbegun rfl rfl rfl _ c
        | interrupted => exact upholds_interrupted split hpassed hbegun rfl rfl rfl c

/-- **Running the steps of a job takes a course**, whatever the executor does, and however the
run is interrupted or canceled meanwhile. -/
theorem upholds_runSteps (k : StepContext) (hwatch : k.watchesCancel = true) (env : Bindings)
    (steps : List StepSpec) (c : Bool) {ns : List Note} (hr : recordedAmong ns = [])
    (hb : begunAmong ns = []) :
    (k.runSteps env steps).Upholds (OnCourse steps) (OffCourse steps) c ns := by
  rw [runSteps]
  split
  · refine ⟨?_, fun fault he hf => ?_⟩
    · rw [hr, hb]
      exact .unread rfl
    · cases he
      cases hf
  · have hpassed : Passed [] (recordedAmong ns) := by
      rw [hr]
      exact passed_nil
    exact upholds_runFrom k hwatch _ rfl c hpassed hb

end StepContext

/-! ## Steps at another time -/

namespace StepContext

theorem alike_recordAll (d : Nat) (rs : List StepResult) :
    Alike d (recordAll rs) (recordAll rs) := by
  induction rs with
  | nil => exact .finish _
  | cons r rest ih => exact .note _ ih

theorem alike_logEnding (d : Nat) (k : StepContext) (step : StepSpec) (e : Ending Int) :
    Alike d (k.logEnding step e) (k.logEnding step e) := by
  cases e with
  | done code => exact .finish _
  | interrupted => exact .finish _
  | failed fault =>
    rw [logEnding]
    split
    · exact .finish _
    · exact alike_log d _ _

/-- A step at another time: it takes as long, and so its result is the same. -/
theorem alike_runStep {d : Nat} (k : StepContext)
    (hexec : ∀ n script env,
      Alike d (k.execute k.unit n script env) (k.execute k.unit n script env))
    (index : Nat) (step : StepSpec) (env : Bindings) :
    Alike d (k.runStep index step env) (k.runStep index step env) := by
  refine .clock fun started => .bind (.note _ (.finish _)) fun _ =>
    .bind ((hexec index step.script (stepEnv env step)).collect _) fun (output, ending) =>
      .bind (.note _ (.finish _)) fun _ => .clock fun finished => ?_
  show Alike d (k.logEnding step ending >>= fun _ => _) (k.logEnding step ending >>= fun _ => _)
  rw [Nat.add_sub_add_right]
  exact .bind (alike_logEnding d k step ending) fun _ => .finish _

theorem alike_runFrom {d : Nat} (k : StepContext)
    (hexec : ∀ n script env,
      Alike d (k.execute k.unit n script env) (k.execute k.unit n script env))
    (hwatch : k.watchesCancel = true) (env : Bindings) (index : Nat) (steps : List StepSpec) :
    Alike d (k.runFrom env index steps) (k.runFrom env index steps) := by
  induction steps generalizing index with
  | nil => exact .finish _
  | cons step rest ih =>
    rw [runFrom, if_pos hwatch]
    -- Nobody cancels the run, so the step is run.
    refine .poll (.bind (alike_log d _ _) fun _ =>
      .bind (alike_runStep k hexec index step env) ?_)
    intro (result, interrupted)
    refine .bind (.note _ (.finish _)) fun _ => ?_
    cases interrupted with
    | true => exact .bind (alike_recordAll d _) fun _ => .finish _
    | false =>
      show Alike d (if result.status = .success then _ else _) (if result.status = .success then
        _ else _)
      split
      · exact ih (index + 1)
      · exact .bind (alike_log d _ _) fun _ => .bind (alike_recordAll d _) fun _ => .finish _

/-- **The steps of a job do the same at another time**, if the executor does. -/
theorem alike_runSteps {d : Nat} (k : StepContext)
    (hexec : ∀ n script env,
      Alike d (k.execute k.unit n script env) (k.execute k.unit n script env))
    (hwatch : k.watchesCancel = true) (env : Bindings) (steps : List StepSpec) :
    Alike d (k.runSteps env steps) (k.runSteps env steps) := by
  rw [runSteps]
  split
  · exact .finish _
  · exact alike_runFrom k hexec hwatch _ 0 steps

end StepContext

end Conveyor
