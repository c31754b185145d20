import Conveyor.Proofs.Step.Tenancy

/-!
# What the steps of a job start

The steps of a job are started in order, each at most once, and each in an environment of its
own. What earlier steps did, or what they overrode, is nothing to it.

- `startsAmong`: the scripts that begin among some notes, with their environments.
- `StepSpec.start`: what a step starts on top of an environment.
- `Started`: the first so many steps were started.
- `ExecutionUnit.Equips`: they were started in a unit.
- `StepContext.keeps_runSteps_starts`: **at any time, what was started is what the first so many
  steps start**.
-/

namespace Conveyor

open Activity

/-! ## Starts among notes -/

/-- The scripts that begin among some notes, with their environments. -/
def startsAmong : List Note → List (Text × Bindings)
  | [] => []
  | .began script env :: rest => (script, env) :: startsAmong rest
  | _ :: rest => startsAmong rest

@[simp] theorem startsAmong_append (ms ns : List Note) :
    startsAmong (ms ++ ns) = startsAmong ms ++ startsAmong ns := by
  fun_induction startsAmong ms <;> simp_all [startsAmong]

theorem map_startsAmong (ns : List Note) : (startsAmong ns).map Prod.fst = begunAmong ns := by
  fun_induction startsAmong ns <;> simp_all [begunAmong]

/-- Notes of which none says that a script begins start nothing. -/
theorem startsAmong_quiet {ns : List Note} (ms : List Note) (h : ∀ n ∈ ns, n.begins = false) :
    startsAmong (ms ++ ns) = startsAmong ms := by
  have hnil : startsAmong ns = [] := by
    fun_induction startsAmong ns with
    | case1 => rfl
    | case2 script env rest ih => cases h _ List.mem_cons_self
    | case3 n rest hn ih => exact ih fun m hm => h m (List.mem_cons_of_mem n hm)
  rw [startsAmong_append, hnil, List.append_nil]

theorem startsAmong_outside {ns : List Note} (ms : List Note) (h : ∀ n ∈ ns, n.outside = true) :
    startsAmong (ms ++ ns) = startsAmong ms :=
  startsAmong_quiet ms fun n hn => Note.begins_of_outside (h n hn)

theorem startsAmong_recorded (ms : List Note) (rs : List StepResult) :
    startsAmong (ms ++ rs.map Note.recorded) = startsAmong ms := by
  refine startsAmong_quiet ms fun n hn => ?_
  obtain ⟨r, -, rfl⟩ := List.mem_map.1 hn
  rfl

/-! ## Starts of steps -/

/-- What a step starts on top of an environment. -/
def StepSpec.start (base : Bindings) (s : StepSpec) : Text × Bindings :=
  (s.script, stepEnv base s)

/-- The first so many steps were started, and nothing else. -/
def Started (base : Bindings) (steps : List StepSpec) (ns : List Note) : Prop :=
  startsAmong ns <+: steps.map (StepSpec.start base)

theorem started_append {base : Bindings} {front : List StepSpec} {ns : List Note}
    (h : startsAmong ns = front.map (StepSpec.start base)) (back : List StepSpec) :
    Started base (front ++ back) ns := by
  unfold Started
  rw [h, List.map_append]
  exact List.prefix_append ..

/-- What was started of a job in a unit is what its first so many steps start there, on top of
the environment of the unit and then that of the job. If the former cannot be read, nothing
was. -/
def ExecutionUnit.Equips (u : ExecutionUnit) (i : JobInstance) (ns : List Note) : Prop :=
  match u.env with
  | .error _ => startsAmong ns = []
  | .ok unitEnv => Started (unitEnv.update i.env) i.steps ns

theorem ExecutionUnit.Equips.congr {u : ExecutionUnit} {i : JobInstance} {ns ns' : List Note}
    (h : u.Equips i ns) (hstarts : startsAmong ns' = startsAmong ns) : u.Equips i ns' := by
  unfold Equips Started at *
  rw [hstarts]
  exact h

namespace StepContext

variable {Q : Nat → List Note → Prop}

/-- Running one step starts it, and nothing else. -/
theorem keeps_runStep_start {P : Nat → List Note → Ending (StepResult × Bool) → Prop}
    (k : StepContext)
    (index : Nat) (step : StepSpec) (base : Bindings) {t : Nat} {ns : List Note}
    (hQ : ∀ t' ms, startsAmong ms = startsAmong ns ++ [step.start base] → Q t' ms)
    (hP : ∀ t' ms r b, startsAmong ms = startsAmong ns ++ [step.start base] →
        P t' ms (.done (r, b))) :
    (k.runStep index step base).Keeps Q P t ns := by
  have hbegun : ∀ ms : List Note, (∀ n ∈ ms, n.outside = true) →
      startsAmong (ns ++ [.began step.script (stepEnv base step)] ++ ms) =
        startsAmong ns ++ [step.start base] := by
    intro ms hms
    rw [startsAmong_outside _ hms, startsAmong_append]
    rfl
  refine Keeps.bind (Keeps.bind (Keeps.bind ?_))
  refine keeps_collect (fun t' _ ms hms => hQ t' _ (hbegun ms hms))
    (fun t' _ output e ms hms => ?_) _ _
  refine Keeps.bind (Keeps.bind (Keeps.bind (keeps_logEnding k step e fun ms' hms' => ?_)))
  refine hP t' _ _ _ ?_
  rw [startsAmong_outside _ hms']
  exact (startsAmong_quiet _ (by simp [NoteKind.toNote, StepNote.toNote, Note.begins])).trans
    (hbegun ms hms)

/-- Running the steps `back`, when all of `front` were started. -/
theorem keeps_runFrom_starts (k : StepContext) (base : Bindings) (index : Nat)
    (front back : List StepSpec)
    {t : Nat} {ns : List Note} (h : startsAmong ns = front.map (StepSpec.start base)) :
    (k.runFrom base index back).Keeps (fun _ ns => Started base (front ++ back) ns)
      (fun _ ns _ => Started base (front ++ back) ns) t ns := by
  -- On the steps that are left: each of them moves from `back` to the end of `front` as it is
  -- started.
  induction back generalizing index front t ns with
  | nil => exact started_append h []
  | cons step rest ih =>
    have hlogged : ∀ (ms : List Note) (message : Text),
        startsAmong (ms ++ [.log .info message]) = startsAmong ms :=
      fun ms message => startsAmong_quiet ms (by simp [Note.begins])
    rw [runFrom]
    refine keeps_asked k fun canceled => ?_
    cases canceled with
    | true =>
      -- The steps that are left are only recorded.
      refine Keeps.bind (keeps_recordAll _ (started_append ?_ _))
      rw [startsAmong_recorded, h]
    | false =>
      -- Now the step is one of those that were started.
      have hsnoc : front ++ step :: rest = (front ++ [step]) ++ rest := List.append_cons ..
      rw [hsnoc]
      have hstart : ∀ (message : Text), startsAmong (ns ++ [.log .info message]) ++
          [step.start base] =
          (front ++ [step]).map (StepSpec.start base) := by
        intro message
        rw [hlogged, h, List.map_append]
        rfl
      refine Keeps.bind (Keeps.bind (keeps_runStep_start k index step base
        (fun _ ms hms => started_append (hms.trans (hstart _)) rest)
        fun t' ms r interrupted hms => ?_))
      have hrecorded : startsAmong (ms ++ [.recorded r]) =
          (front ++ [step]).map (StepSpec.start base) :=
        (startsAmong_recorded ms [r]).trans (hms.trans (hstart _))
      refine Keeps.bind ?_
      show Keeps _ _ (if interrupted = true then _ else _) t' (ms ++ [.recorded r])
      split
      · refine Keeps.bind (keeps_recordAll _ (started_append ?_ rest))
        rw [startsAmong_recorded, hrecorded]
      · split
        · exact ih (index + 1) (front ++ [step]) hrecorded
        · refine Keeps.bind (Keeps.bind (keeps_recordAll _ (started_append ?_ rest)))
          rw [startsAmong_recorded]
          exact (hlogged _ _).trans hrecorded

/-- **At any time, what was started in a unit is what the first so many steps start there.** -/
theorem keeps_runSteps_starts (k : StepContext) (i : JobInstance) {t : Nat} {ns : List Note}
    (h : startsAmong ns = []) :
    (k.runSteps i.env i.steps).Keeps (fun _ ns => k.unit.Equips i ns)
    (fun _ ns _ => k.unit.Equips i ns) t ns := by
  unfold runSteps ExecutionUnit.Equips
  cases k.unit.env with
  | error reason => exact h
  | ok unitEnv => exact keeps_runFrom_starts k _ 0 [] i.steps h

end StepContext

end Conveyor
