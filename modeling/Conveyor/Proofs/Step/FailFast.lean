import Conveyor.Proofs.Activity.Plays
import Conveyor.Proofs.Step.Starts
import Conveyor.Unit.Scripted

/-!
# Steps fail fast

However the executor behaves, whenever it is interrupted, and whenever the run is canceled: the
steps of a job are run one after another until the first that does not succeed, each step has its
one result, and what is kept of an output is within the limit.

- `StepContext.Executes`: a step was run, and this is what its result says.
- `StepContext.Ran`: some steps were run one after another.
- `StepContext.FailsFast`: the four ways in which running the steps can end.
- `StepContext.failsFast_runFrom`: the induction, along the steps that are left.
- `StepContext.runSteps_fails_fast`: **every way for the steps to go is one of the four**.
-/

namespace Conveyor

open Activity

/-! ## Running one step -/

namespace StepContext

/-- The script of a step can go so that it ends in `e`, and then this is the result of the
step. -/
def Executes (k : StepContext) (base : Bindings) (index : Nat) (step : StepSpec) (e : Ending Int)
    (r : StepResult) : Prop :=
  ∃ c hs c' duration, (k.execute k.unit index step.script (stepEnv base step)).Plays c hs c' e ∧
    r = .ofEnding index step duration ((OutputBuffer.empty k.outputLimit).writeAll
      (writtenAmong hs)) e

/-- Steps were run one after another, each once, and these are their results. -/
inductive Ran (k : StepContext) (base : Bindings) : List StepSpec → List StepResult → Prop
  | nil : Ran k base [] []
  | snoc {front : List StepSpec} {rs : List StepResult} {step : StepSpec} {r : StepResult}
    {e : Ending Int}
      (before : Ran k base front rs) (last : k.Executes base front.length step e r) :
      Ran k base (front ++ [step]) (rs ++ [r])

/-- The ways in which running the steps of a job ends: what was started, what was recorded,
whether the run is canceled, and the ending. -/
inductive FailsFast (k : StepContext) (base : Bindings) :
    List StepSpec → List (Text × Bindings) → List StepResult → Bool → Ending Bool → Prop
  /-- All steps succeeded. -/
  | passed {steps : List StepSpec} {rs : List StepResult} {c : Bool} (ran : k.Ran base steps rs)
      (passed : Passed steps rs) :
      FailsFast k base steps (steps.map (StepSpec.start base)) rs c (.done true)
  /-- A step failed, and the others were skipped. -/
  | failed {front back : List StepSpec} {step : StepSpec} {rs : List StepResult} {r : StepResult}
    {c : Bool}
      (ran : k.Ran base (front ++ [step]) (rs ++ [r])) (passed : Passed front rs)
      (status : r.status = .failed) :
      FailsFast k base (front ++ step :: back) ((front ++ [step]).map (StepSpec.start base))
        (rs ++ r :: skippedFrom (front.length + 1) back) c (.done false)
  /-- The run was canceled before a step, and that and the others were skipped. -/
  | canceled {front back : List StepSpec} {step : StepSpec} {rs : List StepResult}
      (ran : k.Ran base front rs) (passed : Passed front rs) (watched : k.watchesCancel = true) :
      FailsFast k base (front ++ step :: back) (front.map (StepSpec.start base))
        (rs ++ skippedFrom front.length (step :: back)) true
        (.failed (.canceledBefore k.unit.jobId step.displayName))
  /-- A step was interrupted: its result shows what it had written by then. The others were
  skipped. -/
  | interrupted {front back : List StepSpec} {step : StepSpec} {rs : List StepResult}
    {r : StepResult}
      {c c₁ c₂ : Bool} {hs : List Happening} (ran : k.Ran base (front ++ [step]) (rs ++ [r]))
      (passed : Passed front rs)
      (cut : (k.execute k.unit front.length step.script (stepEnv base step)).Plays c₁ hs c₂
        .interrupted)
      (status : r.status = .interrupted) (code : r.exitCode = none)
      (output : r.output =
        Text.ofList (OutputBuffer.lastChars k.outputLimit (writtenAmong hs).flatten)) :
      FailsFast k base (front ++ step :: back) ((front ++ [step]).map (StepSpec.start base))
        (rs ++ r :: skippedFrom (front.length + 1) back) c .interrupted

/-! ## Results of runs -/

variable {k : StepContext} {base : Bindings}

theorem Executes.index {index : Nat} {step : StepSpec} {e : Ending Int} {r : StepResult}
    (h : k.Executes base index step e r) :
    r.index = index ∧ r.displayName = step.displayName := by
  obtain ⟨c, hs, c', duration, hplays, rfl⟩ := h
  cases e <;> exact ⟨rfl, rfl⟩

/-- What is kept of an output is within the limit. -/
theorem Executes.length_output_le {index : Nat} {step : StepSpec} {e : Ending Int}
    {r : StepResult}
    (h : k.Executes base index step e r) : r.output.toList.length ≤ k.outputLimit.toNat := by
  obtain ⟨c, hs, c', duration, hplays, rfl⟩ := h
  have hkept : ((OutputBuffer.empty k.outputLimit).writeAll (writtenAmong hs)).chars.length ≤
      k.outputLimit.toNat := by
    rw [OutputBuffer.chars_writeAll _ _ (Nat.zero_le _)]
    exact OutputBuffer.length_lastChars_le ..
  cases e with
  | done code => simpa [StepResult.ofEnding, OutputBuffer.text] using hkept
  | interrupted => simpa [StepResult.ofEnding, OutputBuffer.text] using hkept
  | failed fault =>
    -- The fault is written like the rest, and only the last characters are kept of both.
    have hall : (((OutputBuffer.empty k.outputLimit).writeAll (writtenAmong hs)).write
        (fault.message ++ "\n").toList).chars.length ≤ k.outputLimit.toNat := by
      rw [OutputBuffer.chars_write, OutputBuffer.limit_writeAll]
      exact OutputBuffer.length_lastChars_le ..
    simpa only [StepResult.ofEnding, OutputBuffer.text, Text.toList_ofList] using hall

theorem Ran.labeled {steps : List StepSpec} {rs : List StepResult} (h : k.Ran base steps rs) :
    Labeled 0 steps rs := by
  induction h with
  | nil => exact .nil 0
  | @snoc front rs step r e before last ih =>
    obtain ⟨hindex, hname⟩ := last.index
    refine ih.append (.cons ?_ hname (.nil _))
    rw [hindex, Nat.zero_add]

theorem Ran.length_output_le {steps : List StepSpec} {rs : List StepResult}
    (h : k.Ran base steps rs) :
    ∀ r ∈ rs, r.output.toList.length ≤ k.outputLimit.toNat := by
  induction h with
  | nil => intro r hr; cases hr
  | snoc before last ih =>
    intro q hq
    rcases List.mem_append.1 hq with hq | hq
    · exact ih q hq
    · rw [List.mem_singleton.1 hq]
      exact last.length_output_le

/-- Of steps that were skipped there is no output. -/
theorem Ran.length_output_le_skipped {front : List StepSpec} {rs : List StepResult}
    (h : k.Ran base front rs) (index : Nat) (back : List StepSpec) :
    ∀ r ∈ rs ++ skippedFrom index back, r.output.toList.length ≤ k.outputLimit.toNat := by
  intro r hr
  rcases List.mem_append.1 hr with hr | hr
  · exact h.length_output_le r hr
  · obtain ⟨j, name, rfl⟩ := exists_of_mem_skippedFrom hr
    exact Nat.zero_le _

namespace FailsFast

variable {steps : List StepSpec} {starts : List (Text × Bindings)} {rs : List StepResult}
    {c : Bool}
  {e : Ending Bool}

/-- Every step has its one result, in order, and all outputs are within the limit. -/
theorem labeled_and_length_output_le (h : k.FailsFast base steps starts rs c e) :
    Labeled 0 steps rs ∧ ∀ r ∈ rs, r.output.toList.length ≤ k.outputLimit.toNat := by
  have hbroken : ∀ {front back : List StepSpec} {step : StepSpec} {rs : List StepResult}
      {r : StepResult},
      k.Ran base (front ++ [step]) (rs ++ [r]) →
      Labeled 0 (front ++ step :: back) (rs ++ r :: skippedFrom (front.length + 1) back) ∧
        ∀ q ∈ rs ++ r :: skippedFrom (front.length + 1) back,
          q.output.toList.length ≤ k.outputLimit.toNat := by
    intro front back step rs r ran
    have hlabeled := ran.labeled.append_skippedFrom back
    rw [List.length_append, List.length_singleton] at hlabeled
    rw [List.append_cons front, List.append_cons rs]
    exact ⟨hlabeled, ran.length_output_le_skipped _ back⟩
  cases h with
  | passed ran passed => exact ⟨ran.labeled, ran.length_output_le⟩
  | failed ran passed status => exact hbroken ran
  | canceled ran passed watched =>
    exact ⟨ran.labeled.append_skippedFrom _, ran.length_output_le_skipped _ _⟩
  | interrupted ran passed cut status code output => exact hbroken ran

end FailsFast

/-! ## How the steps can go -/

/-- Recording results shows them. -/
theorem plays_recordAll {rs : List StepResult} {f : Unit → Activity StepNote Bool} {c c' : Bool}
    {hs : List Happening} {e : Ending Bool} (h : (recordAll rs >>= f).Plays c hs c' e) :
    ∃ hs', seenAmong hs = rs.map Note.recorded ++ seenAmong hs' ∧ (f ()).Plays c hs' c' e := by
  induction rs generalizing hs with
  | nil => exact ⟨hs, rfl, h⟩
  | cons r rs ih =>
    obtain ⟨hs', rfl, hrest⟩ := Plays.of_tell (f := fun _ => recordAll rs >>= f) h
    obtain ⟨hs'', hseen, hf⟩ := ih hrest
    exact ⟨hs'', congrArg (Note.recorded r :: ·) hseen, hf⟩

/-- Logging how a step ended shows nothing but the log. -/
theorem plays_logEnding {step : StepSpec} {x : Ending Int} {c c' : Bool} {hs : List Happening}
    {e : Ending Unit} (h : (k.logEnding step x).Plays c hs c' e) :
    c' = c ∧ e = .done () ∧ ∀ n ∈ seenAmong hs, n.outside = true := by
  have hnone : (Activity.done () : Activity StepNote Unit).Plays c hs c' e →
      c' = c ∧ e = .done () ∧ ∀ n ∈ seenAmong hs, n.outside = true := by
    intro h
    obtain ⟨rfl, rfl, rfl⟩ := Plays.of_finish h
    exact ⟨rfl, rfl, by simp [seenAmong]⟩
  cases x with
  | done code => exact hnone h
  | interrupted => exact hnone h
  | failed fault =>
    rw [logEnding] at h
    split at h
    · exact hnone h
    · cases h with
      | note rest =>
        obtain ⟨rfl, rfl, rfl⟩ := Plays.of_finish rest
        refine ⟨rfl, rfl, fun n hn => ?_⟩
        rw [List.mem_singleton.1 hn]
        rfl

/-- Running one step starts it, shows no result yet, and gives the result of its script. -/
theorem plays_runStep {index : Nat} {step : StepSpec} {c c' : Bool} {hs : List Happening}
    {y : Ending (StepResult × Bool)} (h : (k.runStep index step base).Plays c hs c' y) :
    startsAmong (seenAmong hs) = [step.start base] ∧ recordedAmong (seenAmong hs) = [] ∧
      ∃ x r c₁ ds c₂ duration,
          (k.execute k.unit index step.script (stepEnv base step)).Plays c₁ ds c₂ x ∧
        r = .ofEnding index step duration
          ((OutputBuffer.empty k.outputLimit).writeAll (writtenAmong ds)) x ∧
        y = .done (r, match x with
          | .interrupted => true
          | _ => false) := by
  obtain ⟨started, hstart⟩ := Plays.of_now h
  obtain ⟨hs₀, rfl, hbegun⟩ := Plays.of_tell hstart
  obtain ⟨hs₁, c₁, p, hs₂, rfl, hcollect, hended⟩ := Plays.of_bind_of_done (fun hs c₁ z hz => by
    obtain ⟨ds, x, -, hx, -⟩ := Plays.of_collect hz
    exact ⟨_, hx⟩) hbegun
  obtain ⟨ds, x, hplays, hp, hout⟩ := Plays.of_collect hcollect
  cases hp
  obtain ⟨hs₃, rfl, hclock⟩ := Plays.of_tell hended
  obtain ⟨finished, hlogs⟩ := Plays.of_now hclock
  obtain ⟨hs₄, c₂, u, hs₅, rfl, hlog, hdone⟩ := Plays.of_bind_of_done (fun hs c₁ z hz =>
    ⟨(), (plays_logEnding hz).2.1⟩) hlogs
  obtain ⟨-, -, hout'⟩ := plays_logEnding hlog
  obtain ⟨rfl, rfl, rfl⟩ := Plays.of_finish hdone
  refine ⟨?_, ?_, x, _, _, ds, _, _, hplays, rfl, rfl⟩
  · have hs₁ := startsAmong_outside [] hout
    have hs₄ := startsAmong_outside [] hout'
    simp_all [seenAmong, startsAmong, NoteKind.toNote, StepNote.toNote, StepSpec.start]
  · have hr₁ := recordedAmong_outside hout
    have hr₄ := recordedAmong_outside hout'
    simp_all [seenAmong, recordedAmong, NoteKind.toNote, StepNote.toNote]

/-- Asking whether to go on: only a run that is watched and canceled is not gone on with. -/
theorem plays_asked {f : Bool → Activity StepNote Bool} {c c' : Bool} {hs : List Happening}
    {e : Ending Bool}
    (h : (if k.watchesCancel = true then isCanceled >>= f else Activity.done false >>= f).Plays c
        hs c' e) :
    ∃ asked, (asked = true → k.watchesCancel = true ∧ c = true) ∧ (f asked).Plays c hs c' e := by
  split at h
  · next hwatch => exact ⟨c, fun hc => ⟨hwatch, hc⟩, Plays.of_isCanceled h⟩
  · exact ⟨false, fun hc => absurd hc Bool.false_ne_true, h⟩

/-- What becomes of the first of some steps, and of those after it. -/
inductive Fate (k : StepContext) (base : Bindings) (index : Nat) (step : StepSpec)
    (rest : List StepSpec) :
    Bool → List Happening → Bool → Ending Bool → Prop
  | canceled {hs : List Happening} (watched : k.watchesCancel = true)
      (starts : startsAmong (seenAmong hs) = [])
      (recorded : recordedAmong (seenAmong hs) = skippedFrom index (step :: rest)) :
      Fate k base index step rest true hs true
      (.failed (.canceledBefore k.unit.jobId step.displayName))
  | succeeded {c c₁ c' : Bool} {hs hs' : List Happening} {e : Ending Bool} {r : StepResult}
      (ran : k.Executes base index step (.done 0) r)
      (starts : startsAmong (seenAmong hs) = step.start base :: startsAmong (seenAmong hs'))
      (recorded : recordedAmong (seenAmong hs) = r :: recordedAmong (seenAmong hs'))
      (next : (k.runFrom base (index + 1) rest).Plays c₁ hs' c' e) :
      Fate k base index step rest c hs c' e
  | failed {c c' : Bool} {hs : List Happening} {x : Ending Int} {r : StepResult}
      (ran : k.Executes base index step x r) (status : r.status = .failed)
      (starts : startsAmong (seenAmong hs) = [step.start base])
      (recorded : recordedAmong (seenAmong hs) = r :: skippedFrom (index + 1) rest) :
      Fate k base index step rest c hs c' (.done false)
  | interrupted {c c' : Bool} {hs : List Happening} {r : StepResult}
      (ran : k.Executes base index step .interrupted r)
      (starts : startsAmong (seenAmong hs) = [step.start base])
      (recorded : recordedAmong (seenAmong hs) = r :: skippedFrom (index + 1) rest) :
      Fate k base index step rest c hs c' .interrupted

/-- Skipping what is left, and then being over. -/
theorem plays_skip {index : Nat} {steps : List StepSpec} {z : Ending Bool} {c c' : Bool}
    {hs : List Happening} {e : Ending Bool}
    (h : (recordAll (skippedFrom index steps) >>= fun _ => Activity.finish z).Plays c hs c' e) :
    c' = c ∧ e = z ∧ startsAmong (seenAmong hs) = [] ∧
      recordedAmong (seenAmong hs) = skippedFrom index steps := by
  obtain ⟨hs', hseen, hend⟩ := plays_recordAll h
  obtain ⟨rfl, rfl, rfl⟩ := Plays.of_finish hend
  rw [seenAmong, List.append_nil] at hseen
  rw [hseen, recordedAmong_recorded]
  exact ⟨rfl, rfl, startsAmong_recorded [] _, rfl⟩

/-- A step failed: that is logged, and what is left is skipped. -/
theorem Fate.of_failed {index : Nat} {step : StepSpec} {rest : List StepSpec} {c c₁ c' : Bool}
    {hs hs' : List Happening} {e : Ending Bool} {x : Ending Int} {r : StepResult}
    {message : Text}
    (ran : k.Executes base index step x r) (status : r.status = .failed)
    (starts : startsAmong (seenAmong hs) = step.start base :: startsAmong (seenAmong hs'))
    (recorded : recordedAmong (seenAmong hs) = r :: recordedAmong (seenAmong hs'))
    (h : (log .info message >>= fun _ => recordAll (skippedFrom (index + 1) rest) >>= fun _ =>
      Activity.done false).Plays c₁ hs' c' e) : Fate k base index step rest c hs c' e := by
  obtain ⟨hs'', rfl, hskip⟩ := Plays.of_tell h
  obtain ⟨-, rfl, hnone, hskipped⟩ := plays_skip hskip
  refine .failed ran status (starts.trans ?_) (recorded.trans ?_)
  · exact congrArg (step.start base :: ·) hnone
  · exact congrArg (r :: ·) hskipped

/-- What is heard of a step that was started and recorded, after something else was. -/
theorem heard_step {n : Note} {hs : List Happening} {q : Text × Bindings}
    (hs' : List Happening)
    (r : StepResult) (hn : startsAmong [n] = []) (hn' : recordedAmong [n] = [])
    (starts : startsAmong (seenAmong hs) = [q]) (recorded : recordedAmong (seenAmong hs) = []) :
    startsAmong (seenAmong (.seen n :: (hs ++ .seen (.recorded r) :: hs'))) =
        q :: startsAmong (seenAmong hs') ∧
      recordedAmong (seenAmong (.seen n :: (hs ++ .seen (.recorded r) :: hs'))) =
        r :: recordedAmong (seenAmong hs') := by
  rw [seenAmong, seenAmong_append, ← List.singleton_append, startsAmong_append,
      recordedAmong_append,
    hn, hn', startsAmong_append, recordedAmong_append, starts, recorded]
  exact ⟨rfl, rfl⟩

/-- **What becomes of the first of the steps, however they go.** -/
theorem fate_of_plays {index : Nat} {step : StepSpec} {rest : List StepSpec} {c c' : Bool}
    {hs : List Happening} {e : Ending Bool}
    (h : (k.runFrom base index (step :: rest)).Plays c hs c' e) :
    Fate k base index step rest c hs c' e := by
  rw [runFrom] at h
  obtain ⟨asked, hasked, hgo⟩ := plays_asked h
  cases asked with
  | true =>
    obtain ⟨hwatch, rfl⟩ := hasked rfl
    obtain ⟨rfl, rfl, hstarts, hrecorded⟩ := plays_skip hgo
    exact .canceled hwatch hstarts hrecorded
  | false =>
    obtain ⟨hs₁, rfl, hrun⟩ := Plays.of_tell hgo
    obtain ⟨hs₂, c₁, p, hs₃, rfl, hstep, hrest⟩ := Plays.of_bind_of_done (fun hs c₁ z hz => by
      obtain ⟨-, -, x, r, -, -, -, -, -, -, hx⟩ := plays_runStep hz
      exact ⟨_, hx⟩) hrun
    obtain ⟨hstarts, hrecorded, x, r, c₂, ds, c₃, duration, hplays, hr, hp⟩ :=
      plays_runStep hstep
    cases hp
    obtain ⟨hs₄, rfl, hnext⟩ := Plays.of_tell hrest
    have hran : k.Executes base index step x r := ⟨c₂, ds, c₃, duration, hplays, hr⟩
    obtain ⟨hstarts', hrecorded'⟩ := heard_step hs₄ r
      (n := .log .info ("[" ++ k.unit.jobId ++ "] ▶ " ++ step.displayName)) rfl rfl hstarts
        hrecorded
    cases x with
    | done code =>
      by_cases hcode : code = 0
      · subst hcode
        have hsuccess : r.status = .success := by rw [hr]; rfl
        rw [if_neg Bool.false_ne_true, if_pos hsuccess] at hnext
        exact .succeeded hran hstarts' hrecorded' hnext
      · have hfailed : r.status = .failed := by
          rw [hr]
          exact if_neg hcode
        rw [if_neg Bool.false_ne_true, if_neg (by rw [hfailed]; decide)] at hnext
        exact .of_failed hran hfailed hstarts' hrecorded' hnext
    | failed fault =>
      have hfailed : r.status = .failed := by rw [hr]; rfl
      rw [if_neg Bool.false_ne_true, if_neg (by rw [hfailed]; decide)] at hnext
      exact .of_failed hran hfailed hstarts' hrecorded' hnext
    | interrupted =>
      obtain ⟨-, rfl, hnone, hskipped⟩ := plays_skip hnext
      refine .interrupted hran (hstarts'.trans ?_) (hrecorded'.trans ?_)
      · exact congrArg (step.start base :: ·) hnone
      · exact congrArg (r :: ·) hskipped

/-- If the first steps succeeded, running those that are left fails fast. -/
theorem failsFast_runFrom {front back : List StepSpec} {rs : List StepResult}
    (ran : k.Ran base front rs)
    (passed : Passed front rs) {c c' : Bool} {hs : List Happening} {e : Ending Bool}
    (h : (k.runFrom base front.length back).Plays c hs c' e) :
    k.FailsFast base (front ++ back) (front.map (StepSpec.start base) ++
        startsAmong (seenAmong hs))
      (rs ++ recordedAmong (seenAmong hs)) c' e := by
  -- On the steps that are left: each that succeeds moves from `back` to the end of `front`.
  induction back generalizing front rs c hs with
  | nil =>
    obtain ⟨rfl, rfl, rfl⟩ := Plays.of_finish h
    simpa [seenAmong, startsAmong, recordedAmong] using FailsFast.passed ran passed
  | cons step rest ih =>
    cases fate_of_plays h with
    | canceled watched starts recorded =>
      rw [starts, recorded, List.append_nil]
      exact .canceled ran passed watched
    | @succeeded _ _ _ _ hs' _ r last starts recorded next =>
      have hpassed : Passed (front ++ [step]) (rs ++ [r]) := by
        obtain ⟨c₁, ds, c₂, duration, hplays, rfl⟩ := last
        exact passed.snoc rfl rfl rfl rfl
      have hlength : (front ++ [step]).length = front.length + 1 := List.length_append
      rw [← hlength] at next
      have hrest := ih (ran.snoc last) hpassed next
      rw [starts, recorded, List.append_cons rs, List.append_cons front,
        List.append_cons (front.map _)]
      rwa [List.map_append] at hrest
    | failed last status starts recorded =>
      rw [starts, recorded, ← List.map_singleton, ← List.map_append]
      exact .failed (ran.snoc last) passed status
    | interrupted last starts recorded =>
      rw [starts, recorded, ← List.map_singleton, ← List.map_append]
      have hran := ran.snoc last
      obtain ⟨c₁, ds, c₂, duration, hplays, rfl⟩ := last
      refine .interrupted hran passed hplays rfl rfl ?_
      show Text.ofList _ = _
      rw [OutputBuffer.chars_writeAll _ _ (Nat.zero_le _)]
      rfl

/-- **The steps of a job fail fast.** Whatever the executor does, whenever it is interrupted, and
whenever the run is canceled: in a unit with variables, running the steps ends in one of four
ways, with one result for each step, in order, and no output is longer than the limit. -/
theorem runSteps_fails_fast (k : StepContext) {unitEnv : Bindings} (henv : k.unit.env =
    .ok unitEnv)
    (hlimit : 0 ≤ k.outputLimit) (jobEnv : Bindings) (steps : List StepSpec) {c c' : Bool}
    {hs : List Happening} {e : Ending Bool} (h : (k.runSteps jobEnv steps).Plays c hs c' e) :
    k.FailsFast (unitEnv.update jobEnv) steps (startsAmong (seenAmong hs))
    (recordedAmong (seenAmong hs))
        c' e ∧
      Labeled 0 steps (recordedAmong (seenAmong hs)) ∧
      ∀ r ∈ recordedAmong (seenAmong hs), (r.output.length : Int) ≤ k.outputLimit := by
  have hrun : k.runSteps jobEnv steps = k.runFrom (unitEnv.update jobEnv) 0 steps := by
    rw [runSteps, henv]
  rw [hrun] at h
  have hfast : k.FailsFast (unitEnv.update jobEnv) steps _ _ c' e :=
    failsFast_runFrom .nil passed_nil h
  obtain ⟨hlabeled, hlengths⟩ := hfast.labeled_and_length_output_le
  refine ⟨hfast, hlabeled, fun r hr => ?_⟩
  have hle := hlengths r hr
  rw [← Text.length] at hle
  omega

/-- A job of three steps, and the second is cut short after it has written something. -/
def cutShort : StepContext where
  unit := ProvisionPlan.smooth.unitFor
    ⟨"a", "a", none, .ofInt 60, ⟨.text "", none⟩, [], []⟩
  execute := rehearse (.cancel (.done ()))
  outputLimit := 4
  watchesCancel := true

theorem runSteps_fails_fast_interrupted :
    let steps : List StepSpec := ["echo first", "echo partial; sleep 10000", "exit 0"].map
      fun script : String => ⟨script, script, [], []⟩
    ∃ hs, (cutShort.runSteps [] steps).Plays false hs false .interrupted ∧
      cutShort.FailsFast (ProvisionPlan.unitEnv.update []) steps (startsAmong (seenAmong hs))
        (recordedAmong (seenAmong hs)) false .interrupted ∧
      (recordedAmong (seenAmong hs)).map (fun r => (r.status, r.exitCode, r.output)) =
        ([(.success, some 0, "rst\n"), (.interrupted, none, "ial\n"), (.skipped, none, "")] :
          List (StepStatus × Option Int × Text)) := by
  intro steps
  obtain ⟨hs, hplays, hseen⟩ := exists_plays_run (cutShort.runSteps [] steps)
    { Moment.start with interruptAt := some (100 * nanosPerMilli) }
  refine ⟨hs, hplays, (runSteps_fails_fast cutShort rfl (by decide) [] steps hplays).1, ?_⟩
  rw [hseen]
  decide +kernel

end StepContext

end Conveyor
