import Conveyor.Proofs.Activity.Upholds
import Conveyor.Schedule.Worker

/-!
# Between two jobs

A worker that has a result tells the receiver, and looks for the next job when the receiver is
done. On its way it may turn jobs away, of which the receiver is told as well. All of this lets
something be seen, and changes what the receiver remembers; nothing else is changed before the
end of the turn.

- `Engine.Clears`: what is seen while jobs are turned away.
- `Floor.cleared`: the floor after that.
- `Engine.Passes`: what a worker between two jobs does before the end of its turn.
- `Engine.Seeks`: the turns of such a worker.
- `Receiver.Prompt`: a receiver that never waits.
- `Engine.seeks_takeJobs`, `Engine.seeks_resume`, `Engine.seeks_tell`: **there are no others**,
  and with a prompt receiver no turn ends before there is a job or none is left.
-/

namespace Conveyor

variable {σ : Type}

/-! ## Receivers -/

namespace Reception

/-- All that a reception lets be seen are deeds. -/
theorem exists_deeds (s : Surroundings) (a : Reception σ) (m : σ) :
    ∃ ds : List Deed, (a.proceed s m).notes = ds.map Deed.toNote := by
  induction a generalizing m with
  | finish ending => exact ⟨[], rfl⟩
  | wait span next ih => exact ⟨[], rfl⟩
  | note d next ih =>
    obtain ⟨ds, hds⟩ := ih m
    exact ⟨d :: ds, congrArg (List.cons d.toNote) hds⟩
  | clock next ih => exact ih _ m
  | poll next ih => exact ih _ m
  | look next ih => exact ih _ m
  | keep m' next ih => exact ih m'

/-- A reception that never waits, and is not interrupted. -/
inductive Prompt : Reception σ → Prop
  | done : Prompt (finish (.done ()))
  | failed (fault : Fault) : Prompt (finish (.failed fault))
  | note (d : Deed) {a : Reception σ} (next : Prompt a) : Prompt (note d a)
  | clock {k : Nat → Reception σ} (next : ∀ t, Prompt (k t)) : Prompt (clock k)
  | poll {k : Bool → Reception σ} (next : ∀ c, Prompt (k c)) : Prompt (poll k)
  | look {k : σ → Reception σ} (next : ∀ m, Prompt (k m)) : Prompt (look k)
  | keep (m : σ) {a : Reception σ} (next : Prompt a) : Prompt (keep m a)

/-- A prompt reception is over after its first turn. -/
theorem Prompt.rest_proceed {a : Reception σ} (h : a.Prompt) (s : Surroundings) (m : σ) :
    (a.proceed s m).rest = .ended (.done ()) ∨
      ∃ fault, (a.proceed s m).rest = .ended (.failed fault) := by
  induction h generalizing m with
  | done => exact .inl rfl
  | failed fault => exact .inr ⟨fault, rfl⟩
  | note d next ih => exact ih m
  | clock next ih => exact ih _ m
  | poll next ih => exact ih _ m
  | look next ih => exact ih _ m
  | keep m' next ih => exact ih m'

end Reception

/-- A receiver that never waits. -/
def Receiver.Prompt (k : Receiver σ) : Prop := ∀ r, (k r).Prompt

theorem Receiver.prompt_nobody : (Receiver.nobody : Receiver σ).Prompt := fun _ => .done

/-- What the receiver is told by a worker with this duty. -/
def Duty.told? : Duty σ → Option Text
  | telling jobId _ _ => some jobId
  | _ => none

/-! ## Jobs that are turned away -/

namespace Engine

/-- What is seen while a worker turns jobs away: each of them, and what the receiver does about
it. -/
inductive Clears (e : Engine) (w time : Nat) : List JobInstance → List Note → Prop
  | nothing : Clears e w time [] []
  | deed (d : Deed) {gone : List JobInstance} {ns : List Note} (next : Clears e w time gone ns) :
      Clears e w time gone (d.toNote :: ns)
  | answered (jobId : Text) {gone : List JobInstance} {ns : List Note}
      (next : Clears e w time gone ns) : Clears e w time gone (.answered w jobId :: ns)
  | refused (i : JobInstance) {gone : List JobInstance} {ns : List Note}
      (next : Clears e w time gone ns) :
      Clears e w time (i :: gone)
        (.turnedAway i.id :: .completed (e.refusedAt i time) :: ns)

variable {e : Engine} {w time : Nat} {gone gone' : List JobInstance} {ns ns' : List Note}

theorem Clears.append (h : e.Clears w time gone ns) (h' : e.Clears w time gone' ns') :
    e.Clears w time (gone ++ gone') (ns ++ ns') := by
  induction h with
  | nothing => exact h'
  | deed d next ih => exact .deed d ih
  | answered jobId next ih => exact .answered jobId ih
  | refused i next ih => exact .refused i ih

theorem clears_deeds (ds : List Deed) : e.Clears w time [] (ds.map Deed.toNote) := by
  induction ds with
  | nil => exact .nothing
  | cons d ds ih => exact .deed d ih

/-- What is seen is done by the receiver, or says that a job is turned away. -/
theorem Clears.mem (h : e.Clears w time gone ns) {n : Note} (hn : n ∈ ns) :
    (∃ d : Deed, n = d.toNote) ∨ (∃ jobId, n = .answered w jobId) ∨
      ∃ i ∈ gone, n = .turnedAway i.id ∨ n = .completed (e.refusedAt i time) := by
  induction h with
  | nothing => cases hn
  | deed d next ih =>
    rcases List.mem_cons.1 hn with rfl | hn
    · exact .inl ⟨d, rfl⟩
    · exact ih hn
  | answered jobId next ih =>
    rcases List.mem_cons.1 hn with rfl | hn
    · exact .inr (.inl ⟨jobId, rfl⟩)
    · exact ih hn
  | refused i next ih =>
    rcases List.mem_cons.1 hn with rfl | hn
    · exact .inr (.inr ⟨i, List.mem_cons_self, .inl rfl⟩)
    · rcases List.mem_cons.1 hn with rfl | hn
      · exact .inr (.inr ⟨i, List.mem_cons_self, .inr rfl⟩)
      · refine (ih hn).imp_right (Or.imp_right ?_)
        rintro ⟨j, hj, hn⟩
        exact ⟨j, List.mem_cons_of_mem i hj, hn⟩

/-- Each job that is turned away has its result. -/
theorem Clears.completed (h : e.Clears w time gone ns) {i : JobInstance} (hi : i ∈ gone) :
    .completed (e.refusedAt i time) ∈ ns := by
  induction h with
  | nothing => cases hi
  | deed d next ih => exact List.mem_cons_of_mem _ (ih hi)
  | answered jobId next ih => exact List.mem_cons_of_mem _ (ih hi)
  | refused j next ih =>
    refine List.mem_cons_of_mem _ ?_
    rcases List.mem_cons.1 hi with rfl | hi
    · exact List.mem_cons_self
    · exact List.mem_cons_of_mem _ (ih hi)

end Engine

/-- The floor on which these jobs are left, after some notes, with what the receiver
remembers. -/
def Floor.cleared (rest : List JobInstance) (m : σ) (ns : List Note) (fl : Floor σ) : Floor σ :=
  { fl.see none ns with queue := rest, memory := m }

theorem Floor.cleared_nothing (fl : Floor σ) (rest : List JobInstance) :
    fl.cleared rest fl.memory [] = { fl with queue := rest } := rfl

theorem Floor.cleared_cleared (fl : Floor σ) (rest rest' : List JobInstance) (m m' : σ)
    (ns ns' : List Note) :
    (fl.cleared rest m ns).cleared rest' m' ns' = fl.cleared rest' m' (ns ++ ns') := by
  simp [Floor.cleared, Floor.see, Floor.now]

/-! ## Waiting for the receiver -/

/-- A worker that waits for the receiver has no duty on a flight, and is not done. -/
theorem Duty.postOn_of_hasWaited {d : Duty σ} {now : Nat} (h : d.hasWaited now = true)
    (f : Nat) :
    d.postOn f = .away := by
  cases d with
  | telling jobId due next => rfl
  | _ => cases h

theorem Duty.isDone_of_hasWaited {d : Duty σ} {now : Nat} (h : d.hasWaited now = true) :
    d.isDone = false := by
  cases d with
  | telling jobId due next => rfl
  | _ => cases h

/-- A worker that has waited long enough is called, unless it is called already. -/
theorem Floor.callTeller_eq (w : Nat) (fl : Floor σ) :
    fl.callTeller w = fl ∨
    ∃ worker, fl.workers[w]? = some worker ∧ worker.duty.hasWaited fl.now = true ∧
      worker.call = .idle ∧
      fl.callTeller w = (fl.modifyWorker w fun x => { x with call := .called }).push
      (.worker w) := by
  unfold Floor.callTeller
  cases hget : fl.workers[w]? with
  | none => exact .inl rfl
  | some worker =>
    by_cases hc : worker.duty.hasWaited fl.now = true ∧ worker.call = .idle
    · exact .inr ⟨worker, rfl, hc.1, hc.2, by simp [hc.1, hc.2]⟩
    · exact .inl (by simp [hc])

/-- Waiting for the receiver changes no more than the duty of the worker, and how it is
called. -/
theorem Engine.attend_eq (w : Nat) (jobId : Text) (span : Nat) (next : Bool → Reception σ)
    (fl : Floor σ) :
    ∃ ws ts timers, attend w jobId span next fl =
        { fl with workers := ws, later := fl.later ++ ts, timers := timers } ∧
      (∃ k, ws = fl.workers.modify w k ∧
        ∀ x, (k x).duty = .telling jobId (fl.now + span) next) ∧
      (∀ t ∈ ts, t = .worker w) ∧
      (timers = fl.timers ∨
        timers = Timer.insert ⟨.time (fl.now + span), .receiver w⟩ fl.timers) := by
  have hnone : ∀ fl' : Floor σ, { fl' with later := fl'.later ++ [] } = fl' := fun fl' => by simp
  unfold attend
  dsimp only
  split
  · rcases (fl.modifyWorker w fun x => { x with duty := .telling jobId (fl.now + span) next
      }).callTeller_eq w with hsame | ⟨worker, -, -, -, hcalls⟩
    · exact ⟨_, [], fl.timers, hsame.trans (hnone _).symm, ⟨_, rfl, fun _ => rfl⟩, by simp,
        .inl rfl⟩
    · refine ⟨_, [.worker w], fl.timers, hcalls,
        ⟨fun _ => ⟨.telling jobId (fl.now + span) next, .called⟩, ?_, fun _ => rfl⟩, by simp,
        .inl rfl⟩
      exact List.modify_modify_eq ..
  · exact ⟨_, [], _, (hnone _).symm, ⟨_, rfl, fun _ => rfl⟩, by simp, .inr rfl⟩

/-! ## Turns between two jobs -/

namespace Engine

theorem turnAway_eq (e : Engine) (i : JobInstance) (fl : Floor σ) (rest : List JobInstance) :
    e.turnAway i { fl with queue := rest } =
      fl.cleared rest fl.memory [.turnedAway i.id, .completed (e.refusedAt i fl.now)] := rfl

/-- What a worker between two jobs does before the end of its turn: it turns away the first of
the jobs that are left, if the run is canceled. -/
structure Passes (e : Engine) (w : Nat) (fl : Floor σ) (gone rest : List JobInstance)
    (ns : List Note) : Prop where
  queue : fl.queue = gone ++ rest
  canceled : gone ≠ [] → fl.around.canceled = true
  clears : e.Clears w fl.now gone ns

/-- The turns of a worker between two jobs, which begin with the receiver being told the result
of a job, if any; `quick` says whether the receiver is done in this turn with whatever it is
told. -/
inductive Seeks (e : Engine) (w : Nat) (told : Option Text) (fl : Floor σ) :
    Bool → Floor σ → Prop
  /-- No job is left. -/
  | leave {ns : List Note} {m : σ} (passes : e.Passes w fl fl.queue [] ns)
      (answered : ∀ jobId ∈ told, .answered w jobId ∈ ns) :
      Seeks e w told fl true (endWorker w false (fl.cleared [] m ns))
  /-- It takes the first job in the queue. -/
  | take {i : JobInstance} {rest : List JobInstance} {ns : List Note} {m : σ}
      (passes : e.Passes w fl [] (i :: rest) ns) (running : fl.around.canceled = false)
      (answered : ∀ jobId ∈ told, .answered w jobId ∈ ns) :
      Seeks e w told fl true (launch w i (fl.cleared rest m ns))
  /-- It is stopped by the receiver. -/
  | stop {gone rest : List JobInstance} {ns : List Note} {m : σ}
    (passes : e.Passes w fl gone rest ns) :
      Seeks e w told fl false (endWorker w true (fl.cleared rest m ns))
  /-- It waits for the receiver. -/
  | wait {gone rest : List JobInstance} {ns : List Note} {m : σ} {jobId : Text} {span : Nat}
      {next : Bool → Reception σ} (passes : e.Passes w fl gone rest ns)
      (asked : ∀ jobId' ∈ told, .answered w jobId' ∈ ns ∨ jobId = jobId') :
      Seeks e w told fl false (attend w jobId span next (fl.cleared rest m ns))

variable {e : Engine} {w : Nat} {told : Option Text} {fl fl' : Floor σ}
  {gone rest : List JobInstance} {ns ns' : List Note} {m : σ}

theorem Passes.trans (h : e.Passes w fl gone rest ns) {gone' rest' : List JobInstance}
    (h' : e.Passes w (fl.cleared rest m ns) gone' rest' ns') :
    e.Passes w fl (gone ++ gone') rest' (ns ++ ns') := by
  refine ⟨?_, fun hne => ?_, h.clears.append h'.clears⟩
  · have hrest : rest = gone' ++ rest' := h'.queue
    rw [h.queue, hrest, List.append_assoc]
  · by_cases hgone : gone = []
    · exact h'.canceled (by simpa [hgone] using hne)
    · exact h.canceled hgone

/-- A worker that has passed some jobs goes on. -/
theorem Seeks.of_passes {quick : Bool}
    (h : e.Seeks w none (fl.cleared rest m ns) quick fl') (hp : e.Passes w fl gone rest ns)
    (answered : ∀ jobId ∈ told, .answered w jobId ∈ ns) : e.Seeks w told fl quick fl' := by
  have hans : ∀ ns', ∀ jobId ∈ told, .answered w jobId ∈ ns ++ ns' :=
    fun ns' jobId hid => List.mem_append_left _ (answered jobId hid)
  cases h with
  | leave passes =>
    rw [Floor.cleared_cleared]
    have hqueue : fl.queue = gone ++ (fl.cleared rest m ns).queue := hp.queue
    exact .leave (hqueue ▸ hp.trans passes) (hans _)
  | take passes running =>
    rw [Floor.cleared_cleared]
    cases gone with
    | nil => exact .take (hp.trans passes) running (hans _)
    | cons i gone =>
      have hc : fl.around.canceled = false := running
      rw [hp.canceled (by simp)] at hc
      cases hc
  | stop passes =>
    rw [Floor.cleared_cleared]
    exact .stop (hp.trans passes)
  | wait passes =>
    rw [Floor.cleared_cleared]
    exact .wait (hp.trans passes) fun jobId hid => .inl (hans _ jobId hid)

/-- It does not matter what the receiver is told. -/
theorem Seeks.of_told {quick : Bool} (h : e.Seeks w told fl quick fl') :
    e.Seeks w none fl quick fl' := by
  cases h with
  | leave passes => exact .leave passes (by simp)
  | take passes running => exact .take passes running (by simp)
  | stop passes => exact .stop passes
  | wait passes => exact .wait passes (by simp)

/-- What a turn of the receiver leads to. -/
inductive Hears (e : Engine) (w : Nat) (jobId : Text) (fl : Floor σ) : Floor σ × Bool → Prop
  | finished {ns : List Note} {m : σ} (clears : e.Clears w fl.now [] ns)
    (answered : .answered w jobId ∈ ns) :
      Hears e w jobId fl (fl.cleared fl.queue m ns, true)
  | stop {ns : List Note} {m : σ} (clears : e.Clears w fl.now [] ns) :
      Hears e w jobId fl (endWorker w true (fl.cleared fl.queue m ns), false)
  | wait {ns : List Note} {m : σ} {span : Nat} {next : Bool → Reception σ}
      (clears : e.Clears w fl.now [] ns) :
      Hears e w jobId fl (attend w jobId span next (fl.cleared fl.queue m ns), false)

theorem hears_proceed (e : Engine) (w : Nat) (jobId : Text) (fl : Floor σ) (a : Reception σ) :
    e.Hears w jobId fl (hear w jobId (a.proceed fl.around fl.memory) fl) := by
  obtain ⟨ds, hds⟩ := a.exists_deeds fl.around fl.memory
  generalize a.proceed fl.around fl.memory = s at hds
  obtain ⟨ns, m, rest⟩ := s
  subst hds
  have hdeeds : e.Clears w fl.now [] (ds.map Deed.toNote) := clears_deeds ds
  unfold hear
  split
  · rename_i hrest
    have hseen := fl.cleared_cleared fl.queue fl.queue m m (ds.map Deed.toNote)
      [.answered w jobId]
    have h : e.Hears w jobId fl (fl.cleared fl.queue m _, true) :=
      .finished (hdeeds.append (.answered jobId .nothing)) (by simp)
    rw [← hseen] at h
    exact h
  · rename_i fault hrest
    have hseen := fl.cleared_cleared fl.queue fl.queue m m (ds.map Deed.toNote)
      [.log .error (receiverMessage jobId fault), .answered w jobId]
    have hlog : e.Clears w fl.now [] [.log .error (receiverMessage jobId fault),
        .answered w jobId] :=
      .deed (.log .error (receiverMessage jobId fault)) (.answered jobId .nothing)
    have h : e.Hears w jobId fl (fl.cleared fl.queue m _, true) :=
      .finished (hdeeds.append hlog) (by simp)
    rw [← hseen] at h
    exact h
  · exact .stop hdeeds
  · exact .wait hdeeds

/-- A worker goes on whose receiver had a turn. -/
theorem Hears.seeks {jobId : Text} {heard : Floor σ × Bool} (h : e.Hears w jobId fl heard)
    {jobs : List JobInstance} (hjobs : fl.queue = jobs)
    (hgo : ∀ ns m, ∃ quick, e.Seeks w none (fl.cleared jobs m ns) quick
      (e.takeJobs w jobs (fl.cleared jobs m ns)) ∧ (fl.receiver.Prompt → quick = true)) :
    ∃ quick, e.Seeks w (some jobId) fl quick
        (if heard.2 then e.takeJobs w jobs heard.1 else heard.1) ∧
      (fl.receiver.Prompt → heard.2 = true → quick = true) := by
  subst hjobs
  have hpass : ∀ {ns : List Note}, e.Clears w fl.now [] ns → e.Passes w fl [] fl.queue ns :=
    fun hclears => ⟨rfl, fun h => absurd rfl h, hclears⟩
  cases h with
  | @finished ns m clears answered =>
    obtain ⟨quick, hseeks, hprompt⟩ := hgo ns m
    refine ⟨quick, hseeks.of_passes (hpass clears) ?_, fun hp _ => hprompt hp⟩
    rintro _ ⟨⟩
    exact answered
  | stop clears => exact ⟨false, .stop (hpass clears), by simp⟩
  | wait clears =>
    refine ⟨false, .wait (hpass clears) ?_, by simp⟩
    rintro _ ⟨⟩
    exact .inr rfl

theorem hears_tell (e : Engine) (w : Nat) (r : JobResult) (fl : Floor σ) :
    e.Hears w r.jobId fl (tell w r fl) :=
  e.hears_proceed w r.jobId fl (fl.receiver r)

/-- A reception that is prompt is over at once. -/
theorem snd_hear (w : Nat) (jobId : Text) (fl : Floor σ) {a : Reception σ} (h : a.Prompt) :
    (hear w jobId (a.proceed fl.around fl.memory) fl).2 = true := by
  unfold hear
  rcases h.rest_proceed fl.around fl.memory with hrest | ⟨fault, hrest⟩ <;> rw [hrest]

theorem snd_tell (w : Nat) (r : JobResult) (fl : Floor σ) (h : fl.receiver.Prompt) :
    (tell w r fl).2 = true :=
  snd_hear w r.jobId fl (h r)

/-- **A worker takes a job, or turns away what is left**, unless the receiver keeps it from
that. -/
theorem seeks_takeJobs (e : Engine) (w : Nat) {jobs : List JobInstance}
    (hjobs : fl.queue = jobs) :
    ∃ quick, e.Seeks w none fl quick (e.takeJobs w jobs fl) ∧
    (fl.receiver.Prompt → quick = true) := by
  induction jobs generalizing fl with
  | nil =>
    have hpass : e.Passes w fl fl.queue [] [] := by
      rw [hjobs]
      exact ⟨hjobs, fun h => absurd rfl h, .nothing⟩
    rw [takeJobs, ← fl.cleared_nothing]
    exact ⟨true, .leave hpass (by simp), fun _ => rfl⟩
  | cons i rest ih =>
    rw [takeJobs]
    split
    · rename_i hc
      -- The job is turned away, and the receiver is told of that before the worker goes on.
      have hpass : e.Passes w fl [i] rest [.turnedAway i.id,
          .completed (e.refusedAt i fl.now)] :=
        ⟨hjobs, fun _ => hc, .refused i .nothing⟩
      have hears := e.hears_tell w (e.refusedAt i fl.now)
        (e.turnAway i { fl with queue := rest })
      have hover := snd_tell w (e.refusedAt i fl.now) (e.turnAway i { fl with queue := rest })
      generalize tell w (e.refusedAt i fl.now) (e.turnAway i { fl with queue := rest }) =
        told at *
      rw [turnAway_eq] at hears hover
      obtain ⟨quick, hseeks, hprompt⟩ := hears.seeks rfl fun ns m => ih rfl
      exact ⟨quick, hseeks.of_told.of_passes hpass (by simp), fun hp => hprompt hp (hover hp)⟩
    · rename_i hc
      have hpass : e.Passes w fl [] (i :: rest) [] := ⟨hjobs, fun h => absurd rfl h, .nothing⟩
      rw [← fl.cleared_nothing]
      exact ⟨true, .take hpass (by simpa using hc) (by simp), fun _ => rfl⟩

theorem seeks_queue (e : Engine) (w : Nat) (fl : Floor σ) :
    ∃ quick, e.Seeks w none fl quick (e.takeJobs w fl.queue fl) ∧
    (fl.receiver.Prompt → quick = true) :=
  e.seeks_takeJobs w rfl

/-- A worker goes on after a turn of the receiver. -/
theorem Hears.seeks_resume {jobId : Text} {heard : Floor σ × Bool}
    (h : e.Hears w jobId fl heard) :
    ∃ quick, e.Seeks w (some jobId) fl quick (e.resume w heard) ∧
      (fl.receiver.Prompt → heard.2 = true → quick = true) := by
  have hqueue : heard.1.queue = fl.queue := by
    cases h with
    | finished clears => rfl
    | stop clears => rfl
    | wait clears =>
      obtain ⟨ws, ts, timers, hattend, -⟩ := attend_eq ..
      rw [hattend]
      rfl
  rw [resume, hqueue]
  exact h.seeks rfl fun ns m => e.seeks_takeJobs w rfl

/-- **A worker goes on that has a result.** -/
theorem seeks_tell (e : Engine) (w : Nat) (r : JobResult) (fl : Floor σ) :
    ∃ quick, e.Seeks w (some r.jobId) fl quick (e.resume w (tell w r fl)) ∧
      (fl.receiver.Prompt → quick = true) := by
  obtain ⟨quick, hseeks, hprompt⟩ := (e.hears_tell w r fl).seeks_resume
  exact ⟨quick, hseeks, fun hp => hprompt hp (snd_tell w r fl hp)⟩

end Engine

end Conveyor
