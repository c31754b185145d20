import Conveyor.Proofs.Schedule.Greedy
import Conveyor.Proofs.Schedule.Roster
import Conveyor.Proofs.Schedule.Teardown

/-!
# Skipped steps

The result of a job says of each step whether it was attempted: the steps that are skipped are
those whose scripts had not begun by then. One step can be missed. A worker that waits in vain
for an interrupted body gives the job its result all the same, and the step that is still under
way has no record yet; it is filled in as if it had never been reached.

- `Tells`: the records of the steps say which of them were attempted, the first so many.
- `Agrees`: they do so for the scripts that began, or miss the last of them for a reason.
- `Course.agrees`, `Body.Sound.agrees`: **the completed records miss a script only while it
  runs**.
- `Candor`: what a result says of the steps agrees with what was seen before it.
- `Lane.Candid.passes`: every move keeps the results of a lane candid.
- `Engine.candid_results`: **a skipped step was not begun, unless the job was abandoned in it**.
- `Engine.overlooked_step`: a step that was begun is reported as skipped.
-/

namespace Conveyor

variable {σ : Type}

/-! ## Steps -/

/-- The records of the steps say that the first so many of them were attempted: every step has a
record, and the records of the others say that they were skipped. -/
structure Tells (steps : List StepSpec) (attempted : Nat) (rs : List StepResult) : Prop where
  covers : ∀ j, j < steps.length → ∃ r ∈ rs, r.index = (j : Int)
  skips : ∀ r ∈ rs, ∀ j : Nat, r.index = j → (r.status = .skipped ↔ attempted ≤ j)

theorem Labeled.covers {steps : List StepSpec} {rs : List StepResult} (h : Labeled 0 steps rs)
    (j : Nat)
    (hj : j < steps.length) : ∃ r ∈ rs, r.index = (j : Int) := by
  have hany : (rs.any fun r => r.index = (j : Int)) = true := by
    rw [h.any_index, decide_eq_true_iff]
    omega
  simpa using hany

/-- The indices of labeled results are those of their steps. -/
theorem Labeled.index_bounds {k : Nat} {ss : List StepSpec} {rs : List StepResult}
    (h : Labeled k ss rs)
    {r : StepResult} (hr : r ∈ rs) {j : Nat} (hj : r.index = j) : k ≤ j ∧ j < k + ss.length := by
  have hany : (rs.any fun r => r.index = (j : Int)) = true :=
    List.any_eq_true.2 ⟨r, hr, by simpa using hj⟩
  rw [h.any_index] at hany
  exact of_decide_eq_true hany

/-- Steps that succeeded were attempted, and steps that were skipped were not. -/
theorem Passed.tells {front : List StepSpec} {rs : List StepResult} (h : Passed front rs)
    (back : List StepSpec) :
    Tells (front ++ back) front.length (rs ++ skippedFrom front.length back) := by
  refine ⟨(h.labeled back).covers, fun r hr j hj => ?_⟩
  rcases List.mem_append.1 hr with hr | hr
  · have hlt := (h.1.index_bounds hr hj).2
    rw [(h.2 r hr).1]
    exact ⟨(fun hs => by cases hs), fun hle => by omega⟩
  · have hle := ((labeled_skippedFrom _ back).index_bounds hr hj).1
    obtain ⟨i, name, rfl⟩ := exists_of_mem_skippedFrom hr
    exact ⟨fun _ => hle, fun _ => rfl⟩

/-- A step that did not get through was attempted as well. -/
theorem Passed.tells_broken {front : List StepSpec} {rs : List StepResult} (h : Passed front rs)
    {step : StepSpec} {r : StepResult} (index : r.index = front.length)
    (name : r.displayName = step.displayName) (status : r.status ≠ .skipped)
    (back : List StepSpec) :
    Tells (front ++ step :: back) (front.length + 1)
      (rs ++ r :: skippedFrom (front.length + 1) back) := by
  refine ⟨(h.labeled_broken index name back).covers, fun q hq j hj => ?_⟩
  rcases List.mem_append.1 hq with hq | hq
  · have hlt := (h.1.index_bounds hq hj).2
    rw [(h.2 q hq).1]
    exact ⟨(fun hs => by cases hs), fun hle => by omega⟩
  rcases List.mem_cons.1 hq with rfl | hq
  · have hj' : j = front.length := by omega
    exact ⟨fun hs => absurd hs status, fun hle => by omega⟩
  · have hle := ((labeled_skippedFrom _ back).index_bounds hq hj).1
    obtain ⟨i, name, rfl⟩ := exists_of_mem_skippedFrom hq
    exact ⟨fun _ => hle, fun _ => rfl⟩

/-- The records of the steps agree with the scripts that began, which are those of the first
steps; for the reason `missing` they may say of the last of these steps that it was skipped. -/
structure Agrees (steps : List StepSpec) (scripts : List Text) (rs : List StepResult)
    (missing : Prop) : Prop where
  inOrder : scripts <+: steps.map StepSpec.script
  told : Tells steps scripts.length rs ∨
    missing ∧ ∃ told, scripts.length = told + 1 ∧ Tells steps told rs

theorem Agrees.mono {steps : List StepSpec} {scripts : List Text} {rs : List StepResult}
    {missing missing' : Prop} (h : Agrees steps scripts rs missing) (hm : missing → missing') :
    Agrees steps scripts rs missing' :=
  ⟨h.inOrder, h.told.imp id fun hmissed => ⟨hm hmissed.1, hmissed.2⟩⟩

/-- No script began, and all steps are skipped. -/
theorem agrees_skippedFrom (steps : List StepSpec) (missing : Prop) :
    Agrees steps [] (skippedFrom 0 steps) missing :=
  ⟨List.nil_prefix, .inl (passed_nil.tells steps)⟩

/-- A result that belongs to no step says nothing of the steps. -/
theorem Agrees.cons {steps : List StepSpec} {scripts : List Text} {rs : List StepResult}
    {missing : Prop} {r : StepResult} (h : Agrees steps scripts rs missing) (hr : r.index < 0) :
    Agrees steps scripts (r :: rs) missing := by
  have hcons : ∀ n, Tells steps n rs → Tells steps n (r :: rs) := by
    intro n htells
    refine ⟨fun j hj => ?_, fun q hq j hj => ?_⟩
    · obtain ⟨q, hq, hindex⟩ := htells.covers j hj
      exact ⟨q, List.mem_cons_of_mem _ hq, hindex⟩
    · rcases List.mem_cons.1 hq with rfl | hq
      · omega
      · exact htells.skips q hq j hj
  refine ⟨h.inOrder, ?_⟩
  rcases h.told with htells | ⟨hm, told, hlength, htells⟩
  · exact .inl (hcons _ htells)
  · exact .inr ⟨hm, told, hlength, hcons _ htells⟩

/-- **The completed records agree with the scripts, whatever the course so far.** While a step is
under way they miss it. -/
theorem Course.agrees {steps : List StepSpec} {rs : List StepResult} {scripts : List Text}
    {ending : Option (Ending Bool)} (h : Course steps rs scripts ending) :
    Agrees steps scripts (completeSteps steps rs) (ending = none) := by
  cases h with
  | @underway front back step rs split passed =>
    refine ⟨⟨back.map StepSpec.script, by simp [split]⟩, .inr ⟨rfl, front.length, by simp, ?_⟩⟩
    rw [split, completeSteps_of_labeled passed.1]
    exact passed.tells (step :: back)
  | passed passed =>
    refine ⟨List.prefix_refl _, .inl ?_⟩
    have htells := passed.tells []
    rw [skippedFrom, List.append_nil, List.append_nil] at htells
    rw [completeSteps_of_all passed.1, List.length_map]
    exact htells
  | @broken front back step rs r ending split passed index name status =>
    refine ⟨⟨back.map StepSpec.script, by simp [split]⟩, .inl ?_⟩
    have hstatus : r.status ≠ .skipped := by
      rcases status with ⟨hs, -⟩ | ⟨hs, -⟩
      · simp [hs]
      · simp [hs]
    rw [split, completeSteps_of_all (passed.labeled_broken index name back), List.length_map,
      List.length_append]
    exact passed.tells_broken index name hstatus back
  | @canceled front back rs fault split passed cancellation =>
    refine ⟨⟨back.map StepSpec.script, by simp [split]⟩, .inl ?_⟩
    rw [split, completeSteps_of_all (passed.labeled back), List.length_map]
    exact passed.tells back
  | unread crash =>
    rw [completeSteps_nil]
    exact agrees_skippedFrom steps _

/-- **The completed records agree with the scripts at any moment.** They miss one only while the
body is in its step. -/
theorem Body.Sound.agrees {e : Engine} {i : JobInstance} {c : Bool} {ns : List Note} {b : Body}
    (h : b.Sound e i c ns) :
    Agrees i.steps (begunAmong ns) (completeSteps i.steps (recordedAmong ns)) (b.isOver =
        false) := by
  have hblank : Blank ns → Agrees i.steps (begunAmong ns)
      (completeSteps i.steps (recordedAmong ns))
      (b.isOver = false) := by
    intro hb
    rw [hb.begun, hb.recorded, completeSteps_nil]
    exact agrees_skippedFrom i.steps _
  -- A course that is over misses nothing.
  have hover : ∀ ending, OffCourse i.steps c ns ending →
      Agrees i.steps (begunAmong ns) (completeSteps i.steps (recordedAmong ns)) (b.isOver =
        false) :=
    fun ending hoff => hoff.1.agrees.mono fun hnone => by cases hnone
  cases b with
  | fresh => exact hblank h
  | acquiring next => exact hblank h.1
  | stepping u next =>
    obtain ⟨ms, hr, hbegun, hon, -⟩ := h
    rw [← hr, ← hbegun]
    exact (Course.agrees hon).mono fun _ => rfl
  | releasing u ending hold =>
    obtain ⟨steps, hoff, -⟩ := h
    exact hover steps hoff
  | ended ending =>
    cases h with
    | gone blank => exact hblank blank
    | @refused fault acquire recorded begun acquired =>
      have hforeign : (StepResult.unprovisioned i fault).index < 0 :=
        show provisioningIndex < 0 by decide
      rw [begun, recorded, completeSteps_of_foreign hforeign]
      exact (agrees_skippedFrom i.steps _).cons hforeign
    | ran course => exact hover _ course
    | broken course => exact hover _ course

/-! ## Results -/

/-- What was seen of a flight before it had a result. -/
def untilResult (ns : List Note) : List Note := ns.takeWhile fun n => !n.isResult

/-- What was seen before the first result. -/
theorem untilResult_first {ns : List Note} (h : ∀ r, .completed r ∉ ns) (r : JobResult)
    (ms : List Note) : untilResult (ns ++ .completed r :: ms) = ns := by
  have hall : ∀ n ∈ ns, (!n.isResult) = true := by
    intro n hn
    cases n with
    | completed q => exact absurd hn (h q)
    | _ => rfl
  unfold untilResult
  rw [List.takeWhile_append_of_pos hall, List.takeWhile_cons]
  exact List.append_nil ns

/-- What is seen after the result does not matter. -/
theorem untilResult_append {ns : List Note} {r : JobResult} (h : .completed r ∈ ns)
    (ms : List Note) :
    untilResult (ns ++ ms) = untilResult ns := by
  induction ns with
  | nil => cases h
  | cons n ns ih =>
    unfold untilResult at ih ⊢
    rw [List.cons_append, List.takeWhile_cons, List.takeWhile_cons]
    split
    · rename_i hn
      rcases List.mem_cons.1 h with rfl | h
      · cases hn
      · rw [ih h]
    · rfl

/-- What a result says of the steps of a job agrees with what was seen before it. A step can be
missed only if the job was overtaken, and then abandoned. -/
def Candor (i : JobInstance) (ns : List Note) (r : JobResult) : Prop :=
  Agrees i.steps (begunAmong ns) r.steps
    ((r.status = .canceled ∨ r.status = .timedOut) ∧ .abandonment ∈ ns)

/-- The result of a job that was turned away. -/
theorem candor_turnedAway (e : Engine) (i : JobInstance) (time : Nat) :
    Candor i [] (e.resultAt i none time .canceled []) := by
  show Agrees i.steps [] (completeSteps i.steps []) _
  rw [completeSteps_nil]
  exact agrees_skippedFrom i.steps _

namespace Lane

variable {e : Engine} {v v' : Lane}

/-- The results of a flight agree with what was seen before. -/
def Candid (v : Lane) : Prop :=
  ∀ t r, (t, .completed r) ∈ v.seen → Candor v.flight.job (untilResult v.notes) r

/-- A worker that gives a result shows nothing of the steps before it in that turn. -/
theorem notes_of_completed (hp : v.post ≠ .away) {r : JobResult} (hr : .completed r ∈
    (v.tend e).1.notes) :
    ∃ new, (v.tend e).1.notes = new ++ [.completed r] ∧
      (∀ n ∈ new, n.quiet = true) ∧ ∀ q, .completed q ∉ new := by
  have htended := v.tended_tend e hp
  generalize (v.tend e).2 = sq at htended
  cases htended with
  | preempts post reason desk => exact absurd hr (not_mem_logs desk.logged.1 r)
  | stops post watch notes orders => exact absurd hr (not_mem_logs notes r)
  | @concludes status ms uncut reason watch logs notes orders =>
    have hmoved : ∀ q, Note.completed q ≠ .moved v.flight.job.id v.flight.state
        (.ended status) := by
      intro q hq
      cases hq
    rw [notes] at hr ⊢
    refine ⟨ms ++ [.moved v.flight.job.id v.flight.state (.ended status)], ?_, fun n hn => ?_,
      fun q hq => ?_⟩
    · rcases List.mem_append.1 hr with hr | hr
      · exact absurd hr (not_mem_logs logs r)
      · have hgiven := (List.mem_cons.1 hr).resolve_left (hmoved r)
        rw [List.mem_singleton.1 hgiven]
        rw [List.append_assoc]
        rfl
    · rcases List.mem_append.1 hn with hn | hn
      · obtain ⟨level, message, rfl⟩ := logs n hn
        rfl
      · rw [List.mem_singleton.1 hn]
        rfl
    · rcases List.mem_append.1 hq with hq | hq
      · exact not_mem_logs logs q hq
      · exact hmoved q (List.mem_singleton.1 hq)

/-- A result that a worker gives. -/
theorem candor_workerTurn (hpending : ∀ r, .completed r ∉ v.notes)
    (hcauses : ∀ cause, v.post = .preempting cause →
      cause.Holds v.around.canceled v.around.now v.flight) (hs : v.Sound e []) (hp : v.post ≠
      .away)
    {r : JobResult} (hr : .completed r ∈ (v.tend e).1.notes) :
    Candor v.flight.job (untilResult (v.workerTurn e).notes) r := by
  have hconcludes := v.concludes_of_mem hcauses hs hp hr
  obtain ⟨new, hnotes, hquiet, hnone⟩ := notes_of_completed hp hr
  have huntil : untilResult (v.workerTurn e).notes = v.notes ++ new := by
    rw [notes_workerTurn e hp, hnotes, ← List.append_assoc]
    refine untilResult_first (fun q hq => ?_) r []
    exact (List.mem_append.1 hq).elim (hpending q) (hnone q)
  have hsteps : r.steps = completeSteps v.flight.job.steps (recordedAmong (v.notes ++ new)) := by
    have hrecorded : v.flight.steps = recordedAmong v.notes := hs.steps
    rw [recordedAmong_append, recordedAmong_quiet hquiet, List.append_nil, ← hrecorded,
      hconcludes.result]
    rfl
  rw [huntil]
  unfold Candor
  rw [hsteps]
  refine (hs.body.later id hquiet).agrees.mono fun hover => ⟨?_, List.mem_append_right _ ?_⟩
  -- A result of another kind is only given when the body is over.
  · cases hstatus : r.status with
    | canceled => exact .inl rfl
    | timedOut => exact .inr rfl
    | success =>
      rw [hconcludes.success hstatus] at hover
      cases hover
    | failed =>
      rw [hconcludes.failed hstatus] at hover
      cases hover
  · have habandonment := v.abandonment_of_completed hp hover hr
    rw [hnotes] at habandonment
    simpa [Note.abandonment] using habandonment

/-- **Every move keeps the results of a lane candid.** -/
theorem Candid.passes (h : v.Candid) (hj : v.Judged e)
    (hcauses : ∀ cause, v.post = .preempting cause →
      cause.Holds v.around.canceled v.around.now v.flight) (hs : v.Sound e [])
      (hp : v.Passes e v') :
    v'.Candid := by
  intro t r hr
  rw [(hp.same hs.idle).1]
  rcases hp.quiet_or_turn with ⟨-, hseen⟩ | ⟨hne, rest, -, rfl⟩
  · obtain ⟨new, hnew⟩ := hp.seen
    have hnotes : v'.notes = v.notes ++ new.map Prod.snd := by
      unfold notes
      rw [← hnew, List.map_append]
    have hmem : .completed r ∈ v.notes := List.mem_map.2 ⟨_, hseen t r hr, rfl⟩
    rw [hnotes, untilResult_append hmem]
    exact h t r (hseen t r hr)
  -- A flight that its worker did not leave yet had no result before.
  · let w : Lane := { v with ready := rest }
    have hmem : .completed r ∈ (w.workerTurn e).notes := List.mem_map.2 ⟨_, hr, rfl⟩
    rw [notes_workerTurn e (v := w) hne] at hmem
    exact candor_workerTurn (v := w) (hj.pending hne) hcauses ⟨hs.idle, hs.steps, hs.body⟩ hne
      ((List.mem_append.1 hmem).resolve_left (hj.pending hne r))

theorem candid_launched (i : JobInstance) (w : Nat) (s : Surroundings) :
    (launched i w s).Candid := by
  intro t r hr
  have hlog := List.mem_singleton.1 hr
  cases hlog

end Lane

namespace Floor

variable {e : Engine} {fl m : Floor σ} {jobs : List JobInstance}

/-- **At every moment of a schedule, the results of its jobs agree with what was seen
before.** -/
theorem Open.candid_leads (ho : fl.Open e) (hl : e.Leads (e.staff jobs fl) m) {f : Nat}
    {v : Lane}
    (hf : fl.flights.length ≤ f) (hv : m.lane? f = some v) : v.Candid := by
  refine ho.lanes_leads Lane.candid_launched (fun f u u' hf hfine hp hu => ?_) hl hf hv
  exact hu.passes (hfine.judged hf) (hfine.vigilant hf).causes (hfine.sound_new hf) hp

end Floor

/-! ## Reports -/

namespace Engine

variable {e : Engine} {fl fl' : Floor σ} {jobs : List JobInstance} {s : ScheduleReport}
  {results : List JobResult}

/-- **A step that is reported as skipped was not begun before the job got its result, unless the
job was abandoned in that step.** Where jobs share an id, the result is that of one of them. -/
theorem candid_results (ho : e.Opens fl) (hrun : e.reportSchedule jobs fl = some (s, fl'))
    (hres : s.results = some results) {k : Nat} {i : JobInstance} {r : JobResult}
    (hi : jobs[k]? = some i) (hr : results[k]? = some r) :
    ∃ k' i', jobs[k']? = some i' ∧ i'.id = i.id ∧ ((jobs.map JobInstance.id).Nodup → k' = k) ∧
      Candor i' (untilResult (s.noted (fl.flights.length + k'))) r := by
  have hfor : s.resultFor i.id = some r := by
    obtain ⟨hk, rfl⟩ := List.getElem?_eq_some_iff.1 hi
    obtain ⟨hk', rfl⟩ := List.getElem?_eq_some_iff.1 hr
    exact ((resultFor_results ho hrun hres).get hk hk').2
  obtain ⟨m, hl, rfl, -⟩ := ho.isOpen.exists_end hrun
  have hunder := (ho.isOpen.underway_staff jobs).leads hl
  obtain ⟨taken, hdealt⟩ := ho.isOpen.dealt_leads hl
  obtain ⟨k', i', hi', hid, hcases⟩ := hdealt.exists_resultFor hunder hfor
  refine ⟨k', i', hi', hid, fun hids => index_unique hids hi hi' hid, ?_⟩
  rcases hcases with ⟨hlt, t, hmem⟩ | ⟨hle, time, rfl⟩
  · obtain ⟨v, hv, rfl⟩ := hdealt.exists_lane hi' hlt
    have hcandid := ho.isOpen.candid_leads hl (Nat.le_add_right _ k') hv
    rw [noted_reportOf hv]
    exact hcandid t r ((Floor.mem_seen_lane hv).2 (List.mem_reverse.1 hmem))
  -- Of a job that was turned away nothing was seen.
  · have hnone : (m.reportOf jobs).noted (fl.flights.length + k') = [] := by
      unfold ScheduleReport.noted
      rw [Floor.seenOf_reportOf, hunder.orderly.numbered.seenOf_eq_nil, List.map_nil]
      rw [hdealt.length]
      omega
    rw [hnone]
    exact candor_turnedAway e i' time

/-- Two jobs: one fails in its second step, and one is still in its first step when it is given
up. -/
def stubbornJobs : List JobInstance :=
  [.rehearsal "a" "" (.ofInt 60) ["exit 0", "exit 1", "exit 0"],
   .rehearsal "b" "" (.ofInt 1) ["stubborn 7000", "exit 0"]]

/-- Of the first job, the last step was not begun. -/
theorem candid_results_failed :
    ∃ s fl' results i r, (rehearsal .smooth 1).reportSchedule stubbornJobs (.start 0 0 ()) =
    some (s, fl') ∧
      s.results = some results ∧ stubbornJobs[0]? = some i ∧ results[0]? = some r ∧
      r.steps.map StepResult.status = [.success, .failed, .skipped] ∧
      Candor i (untilResult (s.noted 0)) r := by
  have hrun : (((rehearsal .smooth 1).reportIn 80 stubbornJobs (.start 0 0 ())).bind fun r =>
      r.1.results).bind (fun results => results[0]?.map fun r => r.steps.map StepResult.status) =
      some [.success, .failed, .skipped] := by
    decide +kernel
  obtain ⟨results, hbind, hfirst⟩ := Option.bind_eq_some_iff.1 hrun
  obtain ⟨⟨s, fl'⟩, hreport, hres⟩ := Option.bind_eq_some_iff.1 hbind
  obtain ⟨r, hr, hstatuses⟩ := Option.map_eq_some_iff.1 hfirst
  have hschedule := reportSchedule_of_reportIn rfl hreport
  obtain ⟨k, i, hi, -, hplace, hcandor⟩ :=
    candid_results (.start 0 0 ()) hschedule hres (k := 0) rfl hr
  obtain rfl := hplace (by decide +kernel)
  exact ⟨s, fl', results, i, r, hschedule, hres, hi, hr, hstatuses, hcandor⟩

/-- **A step that was begun is reported as skipped**: the script of job `b` does not stop when it
is interrupted after a second, and after six seconds more the worker leaves it. -/
theorem overlooked_step :
    ∃ s fl' results r, (rehearsal .smooth 1).reportSchedule stubbornJobs (.start 0 0 ()) =
    some (s, fl') ∧
      s.results = some results ∧ results[1]? = some r ∧
      begunAmong (untilResult (s.noted 1)) = ["stubborn 7000"] ∧
      r.steps.map (fun q => (q.index, q.status)) = [(0, .skipped), (1, .skipped)] := by
  have hrun : ((rehearsal .smooth 1).reportIn 80 stubbornJobs (.start 0 0 ())).bind (fun r =>
      r.1.results.bind fun results => results[1]?.map fun q =>
        (begunAmong (untilResult (r.1.noted 1)), q.steps.map fun q => (q.index, q.status))) =
      some ([("stubborn 7000" : Text)], [(0, .skipped), (1, .skipped)]) := by
    decide +kernel
  obtain ⟨⟨s, fl'⟩, hreport, hbind⟩ := Option.bind_eq_some_iff.1 hrun
  obtain ⟨results, hres, hsecond⟩ := Option.bind_eq_some_iff.1 hbind
  obtain ⟨r, hr, hseen⟩ := Option.map_eq_some_iff.1 hsecond
  obtain ⟨hbegun, hsteps⟩ := Prod.mk.inj hseen
  exact ⟨s, fl', results, r, reportSchedule_of_reportIn rfl hreport, hres, hr, hbegun, hsteps⟩

end Engine

end Conveyor
