import Conveyor.Proofs.Schedule.Awaiting
import Mathlib.Data.List.Forall2

/-!
# Floors side by side

What a receiver of results remembers, what it lets be seen, and whether it fails, is nothing to
anybody else: all that matters is how long it waits. So two floors that differ in nothing but
their receivers stay side by side, as long as the receivers are in step.

- `Reception.InStep`: two receptions that wait in the same way, and are interrupted together.
- `Floor.Abreast`: two floors on which nothing is scheduled, alike but for their receivers;
  `Floor.Beside`: the same while a schedule runs.
- `Engine.beside_step`: a turn on floors that are side by side.
- `Engine.abreast_reportSchedule`: **schedules give the same results on floors that are alike**;
  `Engine.abreast_await`: so do receptions that are waited for.
-/

namespace Conveyor

variable {σ τ : Type} {M : σ → τ → Prop}

/-! ## Receptions in step -/

namespace Reception

mutual

/-- Two receptions that wait in the same way, as long as what they remember is related. -/
inductive InStep (M : σ → τ → Prop) : Reception σ → Reception τ → Prop
  | turn {a : Reception σ} {b : Reception τ}
      (memory : ∀ s m n, M m n → M (a.proceed s m).memory (b.proceed s n).memory)
      (rest : ∀ s m n, M m n → RestInStep M (a.proceed s m).rest (b.proceed s n).rest) :
      InStep M a b

/-- Two receptions in step, after a turn: both are over, or both wait. -/
inductive RestInStep (M : σ → τ → Prop) : Rest σ → Rest τ → Prop
  | ended {x y : Ending Unit} (same : x = .interrupted ↔ y = .interrupted) :
      RestInStep M (.ended x) (.ended y)
  | waiting (span : Nat) {f : Bool → Reception σ} {g : Bool → Reception τ}
      (next : ∀ cut, InStep M (f cut) (g cut)) : RestInStep M (.waiting span f) (.waiting span g)

end

mutual

theorem InStep.symm {a : Reception σ} {b : Reception τ} :
    InStep M a b → InStep (fun n m => M m n) b a
  | .turn memory rest => .turn (fun s m n h => memory s n m h) fun s m n h => (rest s n m h).symm

theorem RestInStep.symm {x : Rest σ} {y : Rest τ} :
    RestInStep M x y → RestInStep (fun n m => M m n) y x
  | .ended same => .ended same.symm
  | .waiting span next => .waiting span fun cut => (next cut).symm

end

/-- Something is seen first. -/
theorem InStep.note {a : Reception σ} {b : Reception τ} (h : InStep M a b) (d d' : Deed) :
    InStep M (note d a) (note d' b) := by
  obtain ⟨memory, rest⟩ := h
  exact .turn memory rest

/-- Receptions that never wait are in step with each other. -/
theorem Prompt.inStep {a : Reception σ} {b : Reception τ} (ha : a.Prompt) (hb : b.Prompt) :
    InStep (fun _ _ => True) a b := by
  refine .turn (fun _ _ _ _ => trivial) fun s m n _ => ?_
  rcases ha.rest_proceed s m with hx | ⟨fault, hx⟩ <;>
    rcases hb.rest_proceed s n with hy | ⟨fault', hy⟩ <;>
    · rw [hx, hy]
      exact .ended (by simp)

end Reception

/-! ## Floors -/

/-- Is something seen of a job, or that there is a result, or that the run is canceled? -/
def Sighting.isPlain (s : Sighting) : Bool := s.flight.isSome || s.note.isVerdict

/-- Two workers do the same; if they wait for receivers, these are in step. -/
inductive Duty.Beside (M : σ → τ → Prop) : Duty σ → Duty τ → Prop
  | fresh : Duty.Beside M .fresh .fresh
  | watching (f : Nat) : Duty.Beside M (.watching f) (.watching f)
  | preempting (f : Nat) (cause : Cause) :
    Duty.Beside M (.preempting f cause) (.preempting f cause)
  | telling (jobId : Text) (due : Nat) {next : Bool → Reception σ} {next' : Bool → Reception τ}
      (inStep : ∀ cut, (next cut).InStep M (next' cut)) :
      Duty.Beside M (.telling jobId due next) (.telling jobId due next')
  | done (stopped : Bool) : Duty.Beside M (.done stopped) (.done stopped)

structure Worker.Beside (M : σ → τ → Prop) (x : Worker σ) (y : Worker τ) : Prop where
  duty : x.duty.Beside M y.duty
  call : y.call = x.call

/-- Two floors that are alike but for their crews and their receivers, which are in step. -/
structure Floor.Abreast (M : σ → τ → Prop) (fl : Floor σ) (fl' : Floor τ) : Prop where
  around : fl'.around = fl.around
  ready : fl'.ready = fl.ready
  later : fl'.later = fl.later
  timers : fl'.timers = fl.timers
  flights : fl'.flights = fl.flights
  receiver : ∀ r, (fl.receiver r).InStep M (fl'.receiver r)
  memory : M fl.memory fl'.memory
  seen : fl'.seen.filter Sighting.isPlain = fl.seen.filter Sighting.isPlain

/-- Two floors that are alike, with crews that do the same. -/
structure Floor.Beside (M : σ → τ → Prop) (fl : Floor σ) (fl' : Floor τ) : Prop
    extends fl.Abreast M fl' where
  queue : fl'.queue = fl.queue
  doneCount : fl'.doneCount = fl.doneCount
  schedulerCall : fl'.schedulerCall = fl.schedulerCall
  doomed : fl'.doomed = fl.doomed
  workers : List.Forall₂ (Worker.Beside M) fl.workers fl'.workers

theorem Duty.Beside.symm {x : Duty σ} {y : Duty τ} (h : x.Beside M y) :
    y.Beside (fun n m => M m n) x := by
  cases h with
  | fresh => exact .fresh
  | watching f => exact .watching f
  | preempting f cause => exact .preempting f cause
  | telling jobId due inStep => exact .telling jobId due fun cut => (inStep cut).symm
  | done stopped => exact .done stopped

theorem Floor.Beside.symm {fl : Floor σ} {fl' : Floor τ} (h : fl.Beside M fl') :
    fl'.Beside (fun n m => M m n) fl := by
  have hworkers : List.Forall₂ (Worker.Beside fun n m => M m n) fl'.workers fl.workers :=
    h.workers.flip.imp fun x y hxy => ⟨hxy.duty.symm, hxy.call.symm⟩
  exact
    { around := h.around.symm
      ready := h.ready.symm
      later := h.later.symm
      timers := h.timers.symm
      flights := h.flights.symm
      receiver := fun r => (h.receiver r).symm
      memory := h.memory
      seen := h.seen.symm
      queue := h.queue.symm
      doneCount := h.doneCount.symm
      schedulerCall := h.schedulerCall.symm
      doomed := h.doomed.symm
      workers := hworkers }

/-! ## Workers -/

namespace Worker.Beside

variable {x : Worker σ} {y : Worker τ} {ws : List (Worker σ)} {ws' : List (Worker τ)}

theorem postOn (h : x.Beside M y) (f : Nat) : y.duty.postOn f = x.duty.postOn f := by
  obtain ⟨xd, xc⟩ := x
  obtain ⟨yd, yc⟩ := y
  obtain ⟨hd, -⟩ := h
  cases hd <;> rfl

theorem isDone (h : x.Beside M y) : y.duty.isDone = x.duty.isDone := by
  obtain ⟨xd, xc⟩ := x
  obtain ⟨yd, yc⟩ := y
  obtain ⟨hd, -⟩ := h
  cases hd <;> rfl

theorem hasWaited (h : x.Beside M y) (now : Nat) :
    y.duty.hasWaited now = x.duty.hasWaited now := by
  obtain ⟨xd, xc⟩ := x
  obtain ⟨yd, yc⟩ := y
  obtain ⟨hd, -⟩ := h
  cases hd <;> rfl

theorem isStopped (h : x.Beside M y) :
    (y.duty = .done true ↔ x.duty = .done true) := by
  obtain ⟨xd, xc⟩ := x
  obtain ⟨yd, yc⟩ := y
  obtain ⟨hd, -⟩ := h
  cases hd <;> simp

theorem standing (h : x.Beside M y) (f : Nat) : y.standing f = x.standing f := by
  unfold Worker.standing
  rw [h.postOn f, h.call]

theorem stand (h : x.Beside M y) (f : Nat) (post : Post) (call : Call) :
    (x.stand f post call).Beside M (y.stand f post call) := by
  cases post with
  | away => exact h
  | watching => exact ⟨.watching f, rfl⟩
  | preempting cause => exact ⟨.preempting f cause, rfl⟩

theorem summon (h : x.Beside M y) (call : Call) :
    Worker.Beside M { x with call := call } { y with call := call } := ⟨h.duty, rfl⟩

theorem assign (h : x.Beside M y) {d : Duty σ} {d' : Duty τ} (hd : d.Beside M d') :
    Worker.Beside M { x with duty := d } { y with duty := d' } := ⟨hd, h.call⟩

theorem modify (h : List.Forall₂ (Worker.Beside M) ws ws') {k : Worker σ → Worker σ}
    {k' : Worker τ → Worker τ} (hk : ∀ x y, x.Beside M y → (k x).Beside M (k' y)) (w : Nat) :
    List.Forall₂ (Worker.Beside M) (ws.modify w k) (ws'.modify w k') := by
  induction h generalizing w with
  | nil => cases w <;> exact .nil
  | @cons x y ws ws' hxy hrest ih =>
    cases w with
    | zero => exact .cons (hk x y hxy) hrest
    | succ w => exact .cons hxy (ih w)

theorem getElem? (h : List.Forall₂ (Worker.Beside M) ws ws') (w : Nat) :
    Option.Rel (Worker.Beside M) ws[w]? ws'[w]? := by
  induction h generalizing w with
  | nil => exact .none
  | cons hxy hrest ih =>
    cases w with
    | zero => exact .some hxy
    | succ w => exact ih w

theorem any (h : List.Forall₂ (Worker.Beside M) ws ws') {p : Worker σ → Bool}
    {p' : Worker τ → Bool}
    (hp : ∀ x y, x.Beside M y → p' y = p x) : ws'.any p' = ws.any p := by
  induction h with
  | nil => rfl
  | cons hxy hrest ih => rw [List.any_cons, List.any_cons, hp _ _ hxy, ih]

end Worker.Beside

namespace Floor

variable {fl : Floor σ} {fl' : Floor τ}

/-! ## Small changes -/

theorem Abreast.now (h : fl.Abreast M fl') : fl'.now = fl.now :=
  congrArg Surroundings.now h.around

theorem Abreast.see (h : fl.Abreast M fl') (f : Option Nat) (ns : List Note) :
    (fl.see f ns).Abreast M (fl'.see f ns) := by
  refine { h with seen := ?_ }
  show List.filter _ (_ ++ fl'.seen) = List.filter _ (_ ++ fl.seen)
  rw [List.filter_append, List.filter_append, h.seen, h.now]

/-- What is seen of nobody's job, and is not that it has its result, may differ. -/
theorem Abreast.see_other (h : fl.Abreast M fl') {ns ns' : List Note}
    (hns : ∀ n ∈ ns, n.isVerdict = false) (hns' : ∀ n ∈ ns', n.isVerdict = false) :
    (fl.see none ns).Abreast M (fl'.see none ns') := by
  have hnone : ∀ (time : Nat) (ns : List Note), (∀ n ∈ ns, n.isVerdict = false) →
      (ns.map fun n => (⟨time, none, n⟩ : Sighting)).reverse.filter Sighting.isPlain = [] := by
    intro time ns hns
    refine List.filter_eq_nil_iff.2 fun s hs => ?_
    obtain ⟨n, hn, rfl⟩ := List.mem_map.1 (List.mem_reverse.1 hs)
    simp [Sighting.isPlain, hns n hn]
  refine { h with seen := ?_ }
  show List.filter _ (_ ++ fl'.seen) = List.filter _ (_ ++ fl.seen)
  rw [List.filter_append, List.filter_append, h.seen, hnone _ _ hns, hnone _ _ hns']

theorem Abreast.remember (h : fl.Abreast M fl') {m : σ} {n : τ} (hm : M m n) :
    ({ fl with memory := m } : Floor σ).Abreast M { fl' with memory := n } :=
        { h with memory := hm }

theorem Abreast.watching (h : fl.Abreast M fl') : fl'.watching = fl.watching := by
  unfold Floor.watching
  rw [h.flights]

theorem Abreast.moveTo (h : fl.Abreast M fl') (s : Surroundings) :
    (fl.moveTo s).Abreast M (fl'.moveTo s) := by
  unfold Floor.moveTo
  dsimp only
  rw [h.around]
  split
  · refine { h with around := rfl, later := ?_, flights := ?_ }
    · show fl'.later ++ fl'.watching.map _ = fl.later ++ fl.watching.map _
      rw [h.later, h.watching]
    · exact congrArg _ h.flights
  · exact { h with around := rfl }

theorem Abreast.disturb (h : fl.Abreast M fl') (act : Activity Deed Unit) :
    (fl.disturb act).Abreast M (fl'.disturb act) := by
  unfold Floor.disturb
  dsimp only
  rw [h.around]
  exact (h.see none _).moveTo _

theorem Abreast.setTimer (h : fl.Abreast M fl') (span : Span) (a : Alarm) :
    (fl.setTimer span a).Abreast M (fl'.setTimer span a) := by
  rw [setTimer_eq, setTimer_eq, h.now]
  cases span.due fl.now with
  | none => exact h
  | some due => exact { h with timers := congrArg _ h.timers }

theorem Abreast.forget (h : fl.Abreast M fl') : fl.forget.Abreast M fl'.forget :=
  { h with seen := rfl }

namespace Beside

theorem see (h : fl.Beside M fl') (f : Option Nat) (ns : List Note) :
    (fl.see f ns).Beside M (fl'.see f ns) := { h with toAbreast := h.toAbreast.see f ns }

theorem push (h : fl.Beside M fl') (t : Turn) : (fl.push t).Beside M (fl'.push t) :=
  { h with later := congrArg (· ++ [t]) h.later }

theorem setTimer (h : fl.Beside M fl') (span : Span) (a : Alarm) :
    (fl.setTimer span a).Beside M (fl'.setTimer span a) := by
  rw [setTimer_eq, setTimer_eq, h.now]
  cases span.due fl.now with
  | none => exact h
  | some due => exact { h with timers := congrArg _ h.timers }

theorem modifyWorker (h : fl.Beside M fl') (w : Nat) {k : Worker σ → Worker σ}
    {k' : Worker τ → Worker τ} (hk : ∀ x y, x.Beside M y → (k x).Beside M (k' y)) :
    (fl.modifyWorker w k).Beside M (fl'.modifyWorker w k') :=
  { h with workers := Worker.Beside.modify h.workers hk w }

theorem moveTo (h : fl.Beside M fl') (s : Surroundings) :
    (fl.moveTo s).Beside M (fl'.moveTo s) := by
  have habreast := h.toAbreast.moveTo s
  unfold Floor.moveTo at habreast ⊢
  dsimp only at habreast ⊢
  rw [h.around] at habreast ⊢
  split
  · rename_i hc
    rw [if_pos hc, if_pos hc] at habreast
    exact { h with toAbreast := habreast }
  · rename_i hc
    rw [if_neg hc, if_neg hc] at habreast
    exact { h with toAbreast := habreast }

theorem disturb (h : fl.Beside M fl') (act : Activity Deed Unit) :
    (fl.disturb act).Beside M (fl'.disturb act) := by
  unfold Floor.disturb
  dsimp only
  rw [h.around]
  exact (h.see none _).moveTo _

theorem standingAmong (h : fl.Beside M fl') (f w : Nat) :
    standingAmong fl'.workers f w = standingAmong fl.workers f w := by
  unfold Conveyor.standingAmong
  have hrel := Worker.Beside.getElem? h.workers w
  generalize fl.workers[w]? = x at hrel
  generalize fl'.workers[w]? = y at hrel
  cases hrel with
  | none => rfl
  | some hxy => exact congrArg (Option.getD · _) (congrArg some (hxy.standing f))

/-! ## Turns on flights -/

theorem desk? (h : fl.Beside M fl') (f : Nat) : fl'.desk? f = fl.desk? f := by
  unfold Floor.desk?
  rw [h.flights, h.around]
  simp only [h.standingAmong]

theorem obey (h : fl.Beside M fl') (f w : Nat) (o : Order) :
    (fl.obey f w o).Beside M (fl'.obey f w o) := by
  cases o with
  | cue c => exact h.push _
  | worker => exact h.push _
  | set span b => exact h.setTimer _ _
  | drop b => exact { h with timers := congrArg (Timer.cancel f b) h.timers }

theorem put (h : fl.Beside M fl') (f : Nat) (d : Desk) :
    (fl.put f d).Beside M (fl'.put f d) := by
  have hfold : ∀ (os : List Order) {fl : Floor σ} {fl' : Floor τ}, fl.Beside M fl' →
      (os.foldl (Floor.obey f d.flight.worker) fl).Beside M
        (os.foldl (Floor.obey f d.flight.worker) fl') := by
    intro os
    induction os with
    | nil => exact fun h => h
    | cons o os ih => exact fun h => ih (h.obey f d.flight.worker o)
  have hseen := h.see (some f) d.notes
  refine hfold d.orders (Beside.moveTo ?_ d.around)
  exact
    { hseen with
      flights := congrArg (·.set f d.flight) h.flights
      workers := Worker.Beside.modify h.workers (fun _ _ hxy => hxy.stand f d.post d.call) _ }

theorem atDesk (h : fl.Beside M fl') (f : Nat) (turn : Desk → Desk) :
    (fl.atDesk f turn).Beside M (fl'.atDesk f turn) := by
  unfold Floor.atDesk
  rw [h.desk?]
  cases fl.desk? f with
  | none => exact h
  | some d => exact h.put f (turn d)

/-! ## Turns of the crew -/

theorem callTeller (h : fl.Beside M fl') (w : Nat) :
    (fl.callTeller w).Beside M (fl'.callTeller w) := by
  unfold Floor.callTeller
  have hrel := Worker.Beside.getElem? h.workers w
  generalize fl.workers[w]? = x at hrel
  generalize fl'.workers[w]? = y at hrel
  cases hrel with
  | none => exact h
  | some hxy =>
    dsimp only
    rw [hxy.hasWaited, hxy.call, h.now]
    split
    · exact (h.modifyWorker w fun _ _ hxy => hxy.summon .called).push _
    · exact h

theorem cutWorker (h : fl.Beside M fl') (w : Nat) :
    (fl.cutWorker w).Beside M (fl'.cutWorker w) := by
  unfold Floor.cutWorker
  have hrel := Worker.Beside.getElem? h.workers w
  generalize fl.workers[w]? = x at hrel
  generalize fl'.workers[w]? = y at hrel
  cases hrel with
  | none => exact h
  | some hxy =>
    dsimp only
    rw [hxy.isDone, hxy.call]
    have hcut := h.modifyWorker w fun _ _ hxy => hxy.summon .cut
    split
    · exact h
    · split
      · exact hcut.push _
      · exact hcut

theorem callScheduler (h : fl.Beside M fl') : fl.callScheduler.Beside M fl'.callScheduler := by
  unfold Floor.callScheduler
  rw [h.schedulerCall]
  split
  · have hcalled : ({ fl with schedulerCall := .called } : Floor σ).Beside M
        { fl' with schedulerCall := .called } := { h with schedulerCall := rfl }
    exact hcalled.push _
  · exact h

theorem workerDoneTurn (h : fl.Beside M fl') (w : Nat) :
    (fl.workerDoneTurn w).Beside M (fl'.workerDoneTurn w) := by
  have hcount : ({ fl with doneCount := fl.doneCount + 1 } : Floor σ).Beside M
      { fl' with doneCount := fl'.doneCount + 1 } :=
    { h with doneCount := congrArg (· + 1) h.doneCount }
  have hlast : (if fl.doneCount + 1 = fl.workers.length then
        ({ fl with doneCount := fl.doneCount + 1 } : Floor σ).callScheduler
      else { fl with doneCount := fl.doneCount + 1 }).Beside M
      (if fl'.doneCount + 1 = fl'.workers.length then
        ({ fl' with doneCount := fl'.doneCount + 1 } : Floor τ).callScheduler
      else { fl' with doneCount := fl'.doneCount + 1 }) := by
    rw [h.doneCount, ← h.workers.length_eq] at *
    split
    · exact hcount.callScheduler
    · exact hcount
  unfold Floor.workerDoneTurn
  have hrel := Worker.Beside.getElem? h.workers w
  dsimp only
  generalize fl.workers[w]? = x at hrel
  generalize fl'.workers[w]? = y at hrel
  cases hrel with
  | none => exact hlast
  | @some x y hxy =>
    obtain ⟨xd, xc⟩ := x
    obtain ⟨yd, yc⟩ := y
    obtain ⟨hd, -⟩ := hxy
    cases hd with
    | done stopped =>
      cases stopped with
      | true => exact hcount.callScheduler
      | false => exact hlast
    | _ => exact hlast

theorem stopTurn (h : fl.Beside M fl') : fl.stopTurn.Beside M fl'.stopTurn := by
  have hfold : ∀ (ws : List Nat) {fl : Floor σ} {fl' : Floor τ}, fl.Beside M fl' →
      (ws.foldl (fun fl w => fl.cutWorker w) fl).Beside M
        (ws.foldl (fun fl w => fl.cutWorker w) fl') := by
    intro ws
    induction ws with
    | nil => exact fun h => h
    | cons w ws ih => exact fun h => ih (h.cutWorker w)
  have hany : (fl'.workers.any fun w => !w.duty.isDone) = fl.workers.any fun w =>
      !w.duty.isDone :=
    Worker.Beside.any h.workers fun x y hxy => congrArg (!·) hxy.isDone
  have hdoomed : ({ fl with doomed := true } : Floor σ).Beside M { fl' with doomed := true } :=
    { h with doomed := rfl }
  unfold Floor.stopTurn
  have hidle : decide (fl'.schedulerCall = .idle) = decide (fl.schedulerCall = .idle) := by
    rw [h.schedulerCall]
  rw [hany, hidle, ← h.workers.length_eq]
  split
  · exact hfold _ h
  · exact hdoomed

end Beside

end Floor

namespace Engine

variable {e : Engine} {fl : Floor σ} {fl' : Floor τ} {w : Nat}

open Floor

theorem beside_endWorker (h : fl.Beside M fl') (w : Nat) (stopped : Bool) :
    (endWorker w stopped fl).Beside M (endWorker w stopped fl') :=
  (h.modifyWorker w fun _ _ hxy => hxy.assign (.done stopped)).push _

theorem beside_attend (h : fl.Beside M fl') (w : Nat) (jobId : Text) (span : Nat)
    {next : Bool → Reception σ} {next' : Bool → Reception τ}
    (hnext : ∀ cut, (next cut).InStep M (next' cut)) :
    (attend w jobId span next fl).Beside M (attend w jobId span next' fl') := by
  unfold attend
  dsimp only
  rw [h.now]
  have htelling := h.modifyWorker w fun x y (hxy : x.Beside M y) =>
    hxy.assign (.telling jobId (fl.now + span) hnext)
  split
  · exact htelling.callTeller w
  · exact htelling.setTimer _ _

/-- A worker on each of two floors goes on after a turn of its receiver, or does not. -/
structure HeardBeside (M : σ → τ → Prop) (x : Floor σ × Bool) (y : Floor τ × Bool) : Prop where
  finished : y.2 = x.2
  beside : x.1.Beside M y.1

theorem beside_hear (h : fl.Beside M fl') (w : Nat) (jobId : Text) {a : Reception σ}
    {b : Reception τ}
    (hab : a.InStep M b) :
    HeardBeside M (hear w jobId (a.proceed fl.around fl.memory) fl)
      (hear w jobId (b.proceed fl'.around fl'.memory) fl') := by
  obtain ⟨memory, rest⟩ := hab
  have hquiet : ∀ (ds : List Deed), ∀ n ∈ ds.map Deed.toNote, n.isVerdict = false := by
    intro ds n hn
    obtain ⟨d, -, rfl⟩ := List.mem_map.1 hn
    exact d.isVerdict_toNote
  obtain ⟨ds, hds⟩ := a.exists_deeds fl.around fl.memory
  obtain ⟨ds', hds'⟩ := b.exists_deeds fl.around fl'.memory
  have hmemory := memory fl.around _ _ h.memory
  have hrest := rest fl.around _ _ h.memory
  rw [h.around]
  generalize a.proceed fl.around fl.memory = s at hds hmemory hrest
  generalize b.proceed fl.around fl'.memory = s' at hds' hmemory hrest
  obtain ⟨ns, m, rest⟩ := s
  obtain ⟨ns', m', rest'⟩ := s'
  subst hds
  subst hds'
  have hheard : ({ fl.see none (ds.map Deed.toNote) with memory := m } : Floor σ).Beside M
      { fl'.see none (ds'.map Deed.toNote) with memory := m' } :=
    { h with toAbreast := (h.toAbreast.see_other (hquiet ds) (hquiet ds')).remember hmemory }
  -- The receivers may answer in different ways.
  have hanswers : ∀ ns ns' : List Note, (∀ n ∈ ns, n.isVerdict = false) →
      (∀ n ∈ ns', n.isVerdict = false) →
      (({ fl.see none (ds.map Deed.toNote) with memory := m } : Floor σ).see none ns).Beside M
        (({ fl'.see none (ds'.map Deed.toNote) with memory := m' } : Floor τ).see none ns') :=
    fun ns ns' hns hns' => { hheard with toAbreast := hheard.toAbreast.see_other hns hns' }
  have hanswered : ∀ n ∈ [Note.answered w jobId], n.isVerdict = false := by simp [Note.isVerdict]
  have hfailed : ∀ fault, ∀ n ∈ [Note.log .error (receiverMessage jobId fault),
      .answered w jobId],
      n.isVerdict = false := by simp [Note.isVerdict]
  cases hrest with
  | waiting span next => exact ⟨rfl, beside_attend hheard w jobId span next⟩
  | @ended x y same =>
    unfold hear
    cases x with
    | interrupted =>
      obtain rfl := same.1 rfl
      exact ⟨rfl, beside_endWorker hheard w true⟩
    | done u =>
      cases y with
      | interrupted => cases same.2 rfl
      | done u' => exact ⟨rfl, hanswers _ _ hanswered hanswered⟩
      | failed fault => exact ⟨rfl, hanswers _ _ hanswered (hfailed fault)⟩
    | failed fault =>
      cases y with
      | interrupted => cases same.2 rfl
      | done u' => exact ⟨rfl, hanswers _ _ (hfailed fault) hanswered⟩
      | failed fault' => exact ⟨rfl, hanswers _ _ (hfailed fault) (hfailed fault')⟩

theorem beside_tell (h : fl.Beside M fl') (w : Nat) (r : JobResult) :
    HeardBeside M (tell w r fl) (tell w r fl') := beside_hear h w r.jobId (h.receiver r)

theorem beside_launch (h : fl.Beside M fl') (w : Nat) (i : JobInstance) :
    (launch w i fl).Beside M (launch w i fl') := by
  unfold launch
  dsimp only
  rw [h.flights, h.now]
  have hseen := h.see (some fl.flights.length) [.log .debug (pickUpMessage w i)]
  refine ((Beside.push ?_ _).push _).setTimer _ _
  exact
    { hseen with
      flights := rfl
      workers := Worker.Beside.modify h.workers (fun _ _ hxy => hxy.assign (.watching _)) w }

theorem beside_takeJobs (e : Engine) (w : Nat) {jobs : List JobInstance} (h : fl.Beside M fl') :
    (e.takeJobs w jobs fl).Beside M (e.takeJobs w jobs fl') := by
  induction jobs generalizing fl fl' with
  | nil =>
    have hqueue : ({ fl with queue := [] } : Floor σ).Beside M { fl' with queue := [] } :=
      { h with queue := rfl }
    exact beside_endWorker hqueue w false
  | cons i rest ih =>
    have hqueue : ({ fl with queue := rest } : Floor σ).Beside M { fl' with queue := rest } :=
      { h with queue := rfl }
    have haway : (e.turnAway i { fl with queue := rest }).Beside M
        (e.turnAway i { fl' with queue := rest }) := by
      unfold turnAway
      rw [hqueue.now]
      exact hqueue.see none _
    obtain ⟨hover, hbeside⟩ := beside_tell haway w (e.refusedAt i fl.now)
    have hnow : fl'.now = fl.now := h.now
    have hcanceled : fl'.around.canceled = fl.around.canceled := by rw [h.around]
    rw [takeJobs, takeJobs]
    dsimp only
    rw [hnow, hover, hcanceled]
    split
    · split
      · exact ih hbeside
      · exact hbeside
    · exact beside_launch hqueue w i

theorem beside_resume (e : Engine) (w : Nat) {x : Floor σ × Bool} {y : Floor τ × Bool}
    (h : HeardBeside M x y) : (e.resume w x).Beside M (e.resume w y) := by
  unfold resume
  rw [h.finished, h.beside.queue]
  split
  · exact e.beside_takeJobs w h.beside
  · exact h.beside

theorem beside_workOn (e : Engine) (w f : Nat) (turn : Desk → Desk × Sequel)
    (h : fl.Beside M fl') :
    (e.workOn w f turn fl).Beside M (e.workOn w f turn fl') := by
  unfold workOn
  rw [h.desk?]
  cases fl.desk? f with
  | none => exact h
  | some d =>
    dsimp only
    have hput := h.put f (turn d).1
    unfold carryOn
    cases (turn d).2 with
    | stay => exact hput
    | stop => exact beside_endWorker hput w true
    | free status => exact e.beside_resume w (beside_tell hput w _)

theorem beside_workerTurn (e : Engine) (w : Nat) (h : fl.Beside M fl') :
    (e.workerTurn w fl).Beside M (e.workerTurn w fl') := by
  unfold workerTurn
  have hrel := Worker.Beside.getElem? h.workers w
  generalize fl.workers[w]? = x at hrel
  generalize fl'.workers[w]? = y at hrel
  cases hrel with
  | none => exact h
  | @some x y hxy =>
    have hidle := h.modifyWorker w fun x y (hxy : x.Beside M y) => hxy.summon .idle
    obtain ⟨xd, xc⟩ := x
    obtain ⟨yd, yc⟩ := y
    obtain ⟨hd, rfl⟩ := hxy
    dsimp only at hd ⊢
    cases hd with
    | fresh =>
      dsimp only
      rw [hidle.queue]
      split
      · exact beside_endWorker hidle w true
      · exact e.beside_takeJobs w hidle
    | watching f => exact e.beside_workOn w f _ hidle
    | preempting f cause => exact e.beside_workOn w f _ hidle
    | telling jobId due inStep => exact e.beside_resume w (beside_hear hidle w jobId (inStep _))
    | done stopped => exact hidle

/-- **Floors stay side by side in every turn.** -/
theorem beside_step (e : Engine) (t : Turn) (h : fl.Beside M fl') :
    (e.step t fl).Beside M (e.step t fl') := by
  cases t with
  | flight f c => exact h.atDesk f _
  | worker w => exact e.beside_workerTurn w h
  | receiver w => exact h.callTeller w
  | workerDone w => exact h.workerDoneTurn w
  | scheduler => exact h
  | errand act => exact h.disturb act
  | stop => exact h.stopTurn

/-! ## Whole schedules -/

theorem beside_nextRound (h : fl.Beside M fl') :
    Option.Rel (Floor.Beside M) fl.nextRound fl'.nextRound := by
  unfold nextRound
  rw [h.later, h.timers, h.now, h.around]
  split
  · exact .none
  · exact .some { h with around := rfl, ready := rfl, later := rfl, timers := rfl }

/-- The same turn comes up on both floors. -/
theorem exists_advance {halts : Turn → Bool} {m : Floor σ} (h : fl.Beside M fl')
    (hrun : e.advance halts fl = some m) : ∃ m', e.advance halts fl' = some m' ∧
    m.Beside M m' := by
  revert h hrun
  refine fun h hrun => advance.partial_correctness e halts (fun fl m => ∀ fl' : Floor τ,
    fl.Beside M fl' → ∃ m', e.advance halts fl' = some m' ∧ m.Beside M m') ?_ fl m hrun fl' h
  intro run ih fl m hrun fl' h
  rw [Engine.advance.eq_1, h.ready]
  split at hrun
  · rename_i t rest hr
    have hpop : ({ fl with ready := rest } : Floor σ).Beside M { fl' with ready := rest } :=
      { h with ready := rfl }
    split at hrun
    · rename_i ht
      cases hrun
      exact ⟨_, if_pos ht, hpop⟩
    · rename_i ht
      rw [if_neg ht]
      exact ih _ _ hrun _ (e.beside_step t hpop)
  · have hround := beside_nextRound h
    split at hrun
    · rename_i next hnext
      rw [hnext] at hround
      generalize fl'.nextRound = y at hround
      cases hround with
      | some hbeside => exact ih _ _ hrun _ hbeside
    · cases hrun

/-- **Floors that are side by side get equally far.** -/
theorem beside_advance (e : Engine) (halts : Turn → Bool) (h : fl.Beside M fl') :
    Option.Rel (Floor.Beside M) (e.advance halts fl) (e.advance halts fl') := by
  cases hrun : e.advance halts fl with
  | some m =>
    obtain ⟨m', hm', hbeside⟩ := exists_advance h hrun
    rw [hm']
    exact .some hbeside
  | none =>
    cases hrun' : e.advance halts fl' with
    | none => exact .none
    | some m' =>
      obtain ⟨m, hm, -⟩ := exists_advance h.symm hrun'
      rw [hrun] at hm
      cases hm

end Engine

/-- The report of a schedule without what is seen of whoever is told of the results. -/
def ScheduleReport.plain (s : ScheduleReport) : ScheduleReport :=
  { s with sightings := s.sightings.filter Sighting.isPlain }

/-- What is left out are no results. -/
theorem ScheduleReport.completed_plain (s : ScheduleReport) :
    s.plain.completed = s.completed := by
  unfold completed plain
  rw [List.filterMap_filter]
  refine List.filterMap_congr fun x _ => ?_
  cases hx : x.note <;> simp [Sighting.isPlain, Note.isVerdict, hx]

theorem ScheduleReport.results_plain (s : ScheduleReport) : s.plain.results = s.results := by
  unfold results resultFor
  rw [completed_plain]
  rfl

namespace Engine

variable {e : Engine} {fl : Floor σ} {fl' : Floor τ}

theorem beside_staff (e : Engine) (jobs : List JobInstance) (h : fl.Abreast M fl') :
    (e.staff jobs fl).Beside M (e.staff jobs fl') := by
  have hcrew : ∀ n, List.Forall₂ (Worker.Beside M) (List.replicate n ⟨.fresh, .called⟩)
      (List.replicate n ⟨.fresh, .called⟩) := by
    intro n
    induction n with
    | zero => exact .nil
    | succ n ih => exact .cons ⟨.fresh, rfl⟩ ih
  exact
    { h with
      later := congrArg (· ++ _) h.later
      queue := rfl
      doneCount := rfl
      schedulerCall := rfl
      doomed := rfl
      workers := hcrew _ }

/-- **Schedules come to the same results on floors that are alike**, whatever the receivers
remember, and whether they fail. -/
theorem abreast_reportSchedule (e : Engine) (jobs : List JobInstance) (h : fl.Abreast M fl') :
    Option.Rel (fun x y => y.1.plain = x.1.plain ∧ x.2.Abreast M y.2)
      (e.reportSchedule jobs fl) (e.reportSchedule jobs fl') := by
  have hsightings : ∀ {fl : Floor σ} {fl' : Floor τ}, fl.Abreast M fl' →
      fl'.sightings.filter Sighting.isPlain = fl.sightings.filter Sighting.isPlain := fun h => by
    unfold Floor.sightings
    rw [List.filter_reverse, List.filter_reverse, h.seen]
  have hreport : ∀ {fl : Floor σ} {fl' : Floor τ}, fl.Abreast M fl' → ∀ ending,
      (ScheduleReport.plain ⟨jobs, ending, fl'.now, fl'.flights.map fun x => x.job.id,
          fl'.sightings⟩) =
        ScheduleReport.plain ⟨jobs, ending, fl.now, fl.flights.map fun x => x.job.id,
          fl.sightings⟩ := by
    intro fl fl' h ending
    unfold ScheduleReport.plain
    rw [h.now, h.flights, hsightings h]
  unfold reportSchedule schedule
  split
  · exact .some ⟨hreport h _, h.forget⟩
  · have hrun := e.beside_advance Turn.isScheduler (e.beside_staff jobs h)
    generalize e.advance Turn.isScheduler (e.staff jobs fl) = x at hrun
    generalize e.advance Turn.isScheduler (e.staff jobs fl') = y at hrun
    cases hrun with
    | none => exact .none
    | @some m m' hm =>
      have hend : endOf m' = endOf m := by
        unfold endOf
        rw [hm.doomed, Worker.Beside.any hm.workers fun x y hxy =>
          decide_eq_decide.2 hxy.isStopped]
      refine .some ⟨?_, hm.toAbreast.forget⟩
      dsimp only
      rw [hend]
      exact hreport hm.toAbreast _

/-! ## Waiting between schedules -/

theorem beside_pause (h : fl.Abreast M fl') (span : Nat) {next : Bool → Reception σ}
    {next' : Bool → Reception τ} (hnext : ∀ cut, (next cut).InStep M (next' cut)) :
    (fl.pause span next).Beside M (fl'.pause span next') := by
  refine beside_attend ?_ 0 "" span hnext
  exact
    { h with
      queue := rfl
      doneCount := rfl
      schedulerCall := rfl
      doomed := rfl
      workers := .cons ⟨.fresh, rfl⟩ .nil }

/-- Two receptions that were waited for are over, on floors that are alike. -/
structure Met (M : σ → τ → Prop) (x : Ending Unit × Floor σ) (y : Ending Unit × Floor τ) :
    Prop where
  ending : x.1 = .interrupted ↔ y.1 = .interrupted
  floors : x.2.Abreast M y.2

mutual

/-- **Floors on which somebody waits for receptions stay alike**, if these are in step. -/
theorem abreast_await (e : Engine) {a : Reception σ} {b : Reception τ} :
    a.InStep M b → ∀ {fl : Floor σ} {fl' : Floor τ}, fl.Abreast M fl' →
      Option.Rel (Met M) (e.await a fl) (e.await b fl')
  | .turn memory rest, fl, fl', h => by
    have hquiet : ∀ {σ : Type} (a : Reception σ) (s : Surroundings) (m : σ),
        ∀ n ∈ (a.proceed s m).notes, n.isVerdict = false := by
      intro σ a s m n hn
      obtain ⟨ds, hds⟩ := a.exists_deeds s m
      rw [hds] at hn
      obtain ⟨d, -, rfl⟩ := List.mem_map.1 hn
      exact d.isVerdict_toNote
    rw [await_eq, await_eq, h.around]
    exact abreast_awaitRest e (rest fl.around _ _ h.memory)
      ((h.see_other (hquiet a _ _) (hquiet b _ _)).remember (memory fl.around _ _ h.memory))

theorem abreast_awaitRest (e : Engine) {x : Reception.Rest σ} {y : Reception.Rest τ} :
    Reception.RestInStep M x y → ∀ {fl : Floor σ} {fl' : Floor τ}, fl.Abreast M fl' →
      Option.Rel (Met M) (e.awaitRest x fl) (e.awaitRest y fl')
  | .ended same, fl, fl', h => .some ⟨same, h⟩
  | .waiting span (f := f) (g := g) next, fl, fl', h => by
    rw [awaitRest, awaitRest]
    have hrun := e.beside_advance (Turn.isWorker 0) (beside_pause h span next)
    generalize e.advance (Turn.isWorker 0) (fl.pause span f) = x at hrun
    generalize e.advance (Turn.isWorker 0) (fl'.pause span g) = y at hrun
    cases hrun with
    | none => exact .none
    | @some m m' hm =>
      have hcut : m'.isCut = m.isCut := by
        unfold Floor.isCut
        have hrel := Worker.Beside.getElem? hm.workers 0
        generalize m.workers[0]? = x at hrel
        generalize m'.workers[0]? = y at hrel
        cases hrel with
        | none => rfl
        | some hxy => exact decide_eq_decide.2 (by rw [hxy.call])
      dsimp only
      rw [hcut]
      exact abreast_await e (next m.isCut) hm.toAbreast

end

end Engine

end Conveyor
