import Conveyor.Proofs.Schedule.Hands

/-!
# Every turn comes up

Turns are taken in rounds, and a turn only adds to the next round; so whoever is to have a turn
has it, unless the schedule ends before. When the run is canceled or no job is left, no worker
takes a job, and so the schedule ends.

- `Floor.turns_step`: a turn only adds to the next round.
- `Engine.comes_up`: **every turn that is to come comes up, or the schedule ends before**.
- `Floor.Closing`: no job will be taken any more, and no worker has one.
- `Floor.Closing.ends`: **such a schedule ends**.
- `Floor.Calm`: nobody stops the schedule; `Floor.Calm.moves`.
-/

namespace Conveyor

variable {σ : Type}

namespace Floor

variable {e : Engine} {fl fl' : Floor σ} {w size : Nat}

/-- A worker that looks for a job only adds to the next round. -/
theorem turns_seeks {told : Option Text} {quick : Bool} (h : e.Seeks w told fl quick fl') :
    fl'.ready = fl.ready ∧ fl.later <+: fl'.later := by
  cases h with
  | leave passes => exact ⟨rfl, List.prefix_append _ _⟩
  | take passes running =>
    rw [launch_eq]
    exact ⟨rfl, List.prefix_append _ _⟩
  | stop passes => exact ⟨rfl, List.prefix_append _ _⟩
  | @wait gone rest ns m jobId span next passes =>
    obtain ⟨ws, ts, timers, hattend, -⟩ :=
      Engine.attend_eq w jobId span next (fl.cleared rest m ns)
    rw [hattend]
    exact ⟨rfl, List.prefix_append _ _⟩

/-- A worker that goes on only adds to the next round. -/
theorem turns_carries {jobId : Text} {sq : Sequel} (h : e.Carries w jobId fl sq fl') :
    fl'.ready = fl.ready ∧ fl.later <+: fl'.later := by
  cases h with
  | stay => exact ⟨rfl, List.prefix_refl _⟩
  | stop => exact ⟨rfl, List.prefix_append _ _⟩
  | free seeks => exact turns_seeks seeks

/-- **A turn only adds to the next round.** -/
theorem turns_step (e : Engine) (hA : fl.Assigned) (t : Turn) :
    (e.step t fl).ready = fl.ready ∧ fl.later <+: (e.step t fl).later := by
  have hsteps := steps_step e t fl
  generalize e.step t fl = fl' at hsteps
  cases hsteps with
  | @desk f v c lane =>
    obtain ⟨ts, hts, -⟩ := (putBack f (e.cueTurn c v.desk) fl).later
    exact ⟨(putBack f _ fl).ready, ts, hts.symm⟩
  | nobody => exact ⟨rfl, List.prefix_refl _⟩
  | worker w =>
    show (e.workerTurn w fl).ready = _ ∧ _ <+: (e.workerTurn w fl).later
    generalize hfl' : e.workerTurn w fl = fl'
    cases hfl' ▸ e.serves_workerTurn hA w with
    | missing get => exact ⟨rfl, List.prefix_refl _⟩
    | rest get done => exact ⟨rfl, List.prefix_refl _⟩
    | stop get duty => exact ⟨rfl, List.prefix_append _ _⟩
    | seek get busy off seeks =>
      obtain ⟨hready, hlater⟩ := turns_seeks seeks
      exact ⟨hready, hlater⟩
    | @tend worker f v _ get lane own post next =>
      obtain ⟨hready, hlater⟩ := turns_carries next
      obtain ⟨ts, hts, -⟩ := (putBack f (v.tend e).1 (Engine.idled w fl)).later
      have hadded : fl.later <+: ((Engine.idled w fl).put f (v.tend e).1).later := ⟨ts, hts.symm⟩
      exact ⟨hready.trans (putBack f _ _).ready, hadded.trans hlater⟩
  | scheduler => exact ⟨rfl, List.prefix_refl _⟩
  | _ => exact ⟨rfl, List.prefix_append _ _⟩

end Floor

namespace Engine

open Floor

variable {e : Engine} {fl : Floor σ} {t : Turn}

/-- The schedule ends: at some moment the scheduler has its turn. -/
def Ends (e : Engine) (fl : Floor σ) : Prop :=
  ∃ m rest, e.Leads fl m ∧ m.ready = .scheduler :: rest

/-- The turns of a round are taken one after another. -/
theorem take_turns (h : fl.Orderly) {before after : List Turn} (hr : fl.ready = before ++
    after) :
    e.Ends fl ∨ ∃ n, e.Leads fl n ∧ n.ready = after ∧ fl.later <+: n.later := by
  induction before generalizing fl with
  | nil => exact .inr ⟨fl, .refl, hr, List.prefix_refl _⟩
  | cons t before ih =>
    by_cases ht : t = .scheduler
    · subst ht
      exact .inl ⟨fl, _, .refl, hr⟩
    · have hm : e.Moves fl (e.step t { fl with ready := before ++ after }) := .turn hr ht
      have hA : { fl with ready := before ++ after }.Assigned :=
        assigned_of_same h.numbered.assigned rfl rfl
      obtain ⟨hready, hlater⟩ := turns_step e hA t
      rcases ih (h.moves hm) hready with ⟨m, rest, hl, hm'⟩ | ⟨n, hl, hn, hlater'⟩
      · exact .inl ⟨m, rest, .head hm hl, hm'⟩
      · exact .inr ⟨n, .head hm hl, hn, hlater.trans hlater'⟩

/-- **Every turn that is to come comes up, or the schedule ends before.** -/
theorem comes_up (h : fl.Orderly) (ht : t ∈ fl.pending) :
    e.Ends fl ∨ ∃ n rest, e.Leads fl n ∧ n.ready = t :: rest := by
  rcases List.mem_append.1 ht with hready | hlater
  · obtain ⟨before, after, hr⟩ := List.append_of_mem hready
    rcases take_turns (e := e) h hr with hends | ⟨n, hl, hn, -⟩
    · exact .inl hends
    · exact .inr ⟨n, after, hl, hn⟩
  -- A turn of the next round comes up after all turns of this one.
  · rcases take_turns (e := e) h (List.append_nil fl.ready).symm with hends | ⟨n, hl, hn, hkept⟩
    · exact .inl hends
    have hmem : t ∈ n.later := hkept.mem hlater
    have hnext : ∃ n', n.nextRound = some n' := by
      unfold nextRound
      rw [if_neg]
      · exact ⟨_, rfl⟩
      · simp [List.ne_nil_of_mem hmem]
    obtain ⟨n', hnext⟩ := hnext
    have hm : e.Moves n n' := .round hn hnext
    have hready : t ∈ n'.ready := by
      rw [(nextRound_eq_some hnext).2.2]
      exact List.mem_append_left _ hmem
    obtain ⟨before, after, hr⟩ := List.append_of_mem hready
    rcases take_turns (e := e) ((h.leads hl).moves hm) hr with
      ⟨m, rest, hl', hm'⟩ | ⟨n'', hl', hn'', -⟩
    · exact .inl ⟨m, rest, (hl.tail hm).trans hl', hm'⟩
    · exact .inr ⟨n'', after, (hl.tail hm).trans hl', hn''⟩

end Engine

/-- Has a worker with this duty taken nothing yet? -/
def Duty.isFresh : Duty σ → Bool
  | fresh => true
  | _ => false

namespace Floor

variable {e : Engine} {fl fl' : Floor σ} {w size : Nat} {f : Nat} {v : Lane}

/-- No job will be taken any more: the run is canceled, or no job is left. -/
def Shut (fl : Floor σ) : Prop := fl.around.canceled = true ∨ fl.queue = []

theorem Shut.moves (h : fl.Shut) (ho : fl.Orderly) (hm : e.Moves fl fl') : fl'.Shut := by
  rcases h with hc | hqueue
  · exact .inl (canceled_moves ho.numbered hm hc)
  · refine .inr ?_
    cases deals_moves ho hm with
    | keep queue length => exact queue.trans hqueue
    | take queue running length lane =>
      rw [hqueue] at queue
      cases queue
    | drain canceled queue length refused =>
      rw [hqueue] at queue
      exact (List.append_eq_nil_iff.1 queue.symm).2

/-- A worker that looks for a job when none will be taken any more is done, if the receiver is
done. -/
theorem Shut.seeks (h : fl.Shut) {told : Option Text} (hs : e.Seeks w told fl true fl') :
    ∃ ns m, fl' = Engine.endWorker w false (fl.cleared [] m ns) := by
  cases hs with
  | leave passes => exact ⟨_, _, rfl⟩
  | take passes running =>
    rcases h with hc | hqueue
    · rw [hc] at running
      cases running
    · have hq := passes.queue
      rw [hqueue] at hq
      cases hq

/-- No job will be taken any more, no worker has one, and none waits for the receiver. -/
structure Closing (size : Nat) (fl : Floor σ) : Prop where
  orderly : fl.Orderly
  eager : fl.Eager size
  brisk : fl.Brisk
  shut : fl.Shut
  free : ∀ worker ∈ fl.workers, worker.duty.flight? = none

/-- How much the workers and the scheduler have still to do. -/
def toClose (fl : Floor σ) : Nat :=
  fl.workers.countP (fun worker => worker.duty.isFresh) + (fl.workers.length - fl.doneCount)

theorem map_duty_modify {k : Worker σ → Worker σ} {g : Duty σ → Duty σ} (h : ∀ x, (k x).duty =
    g x.duty)
    (ws : List (Worker σ)) (w : Nat) :
    (ws.modify w k).map Worker.duty = (ws.map Worker.duty).modify w g := by
  refine List.ext_getElem? fun j => ?_
  rw [List.getElem?_map, List.getElem?_modify, List.getElem?_modify, List.getElem?_map]
  cases ws[j]? with
  | none => rfl
  | some x => by_cases hj : w = j <;> simp [hj, h]

theorem map_duty_idled (w : Nat) (fl : Floor σ) :
    (Engine.idled w fl).workers.map Worker.duty = fl.workers.map Worker.duty := by
  have hsame := map_duty_modify (k := fun x => { x with call := .idle }) (g := id) (fun _ => rfl)
    fl.workers w
  rw [List.modify_id] at hsame
  exact hsame

/-- What a turn does when no job will be taken any more and no worker has one. -/
inductive Closes (fl : Floor σ) (t : Turn) (fl' : Floor σ) : Prop
  /-- The duties stay as they are. -/
  | keep (busy : ∀ w worker, t = .worker w → fl.workers[w]? = some worker → worker.duty ≠ .fresh)
      (duties : fl'.workers.map Worker.duty = fl.workers.map Worker.duty)
      (count : fl'.doneCount = fl.doneCount + if t.isWorkerDone = true then 1 else 0)
  /-- A worker has its first turn, and is done. -/
  | finish {w : Nat} {worker : Worker σ} {stopped : Bool} (turn : t = .worker w)
      (get : fl.workers[w]? = some worker) (fresh : worker.duty = .fresh)
      (duties : fl'.workers.map Worker.duty =
        (fl.workers.map Worker.duty).modify w fun _ => .done stopped)
      (count : fl'.doneCount = fl.doneCount)

/-- A message to a flight that nobody has in hand does nothing about the workers. -/
theorem closes_desk (e : Engine) (hfree : ∀ worker ∈ fl.workers, worker.duty.flight? = none)
    (hv : fl.lane? f = some v) (c : Cue) :
    fl.Closes (.flight f c) (fl.put f (e.cueTurn c v.desk)) := by
  have haway : v.post = .away := away_of_free hfree hv
  have hput := putBack f (e.cueTurn c v.desk) fl
  have hpost : (e.cueTurn c v.desk).post = .away :=
    (e.stays_cueTurn (d := v.desk) rfl rfl c).1.trans haway
  refine .keep (fun w worker ht => by cases ht) ?_ hput.doneCount
  rw [hput.workers, hpost]
  have hsame := map_duty_modify (k := Worker.stand f .away (e.cueTurn c v.desk).call) (g := id)
    (fun _ => rfl) fl.workers (e.cueTurn c v.desk).flight.worker
  rw [List.modify_id] at hsame
  exact hsame

/-- A worker that has a turn has its first, since nobody has a job. -/
theorem closes_worker (e : Engine) (hA : fl.Assigned) (hshut : fl.Shut) (hbrisk : fl.Brisk)
    (hfree : ∀ worker ∈ fl.workers, worker.duty.flight? = none) (w : Nat) :
    fl.Closes (.worker w) (e.step (.worker w) fl) := by
  have hended : ∀ stopped, ((fl.workers.modify w fun x => { x with call := .idle }).modify w
      fun x => { x with duty := .done stopped }).map Worker.duty =
      (fl.workers.map Worker.duty).modify w fun _ => .done stopped := by
    intro stopped
    rw [List.modify_modify_eq]
    exact map_duty_modify (fun _ => rfl) _ _
  show fl.Closes _ (e.workerTurn w fl)
  generalize hfl' : e.workerTurn w fl = fl'
  -- Nobody has a flight, and no job can be taken: a worker that has its turn is sent home.
  cases hfl' ▸ e.serves_workerTurn hA w with
  | missing get =>
    refine .keep (fun u worker hu hget => ?_) rfl rfl
    cases hu
    rw [get] at hget
    cases hget
  | @rest worker get done =>
    refine .keep (fun u worker' hu hget hfresh => ?_) (map_duty_idled w fl) rfl
    cases hu
    rw [get] at hget
    rw [Option.some.inj hget, hfresh] at done
    cases done
  | stop get duty => exact .finish rfl get duty (hended true) rfl
  | @seek worker quick _ get busy off seeks prompt =>
    have hfresh := hbrisk.fresh_of_off (List.mem_of_getElem? get) busy off
    rw [prompt hbrisk.prompt hfresh] at seeks
    have hidle : (Engine.idled w fl).Shut := hshut
    obtain ⟨ns, m, rfl⟩ := hidle.seeks seeks
    exact .finish rfl get hfresh (hended false) rfl
  | tend get lane own post next => exact absurd (away_of_free hfree lane) post

/-- **What a turn does when no job will be taken any more and no worker has one**: the duties
stay as they are, unless a worker has its first turn. -/
theorem Closing.step (h : fl.Closing size) {t : Turn} {rest : List Turn} (hr : fl.ready =
    t :: rest) :
    { fl with ready := rest }.Closes t (e.step t { fl with ready := rest }) := by
  have hA : { fl with ready := rest }.Assigned :=
    assigned_of_same h.orderly.numbered.assigned rfl rfl
  have hfree : ∀ worker ∈ { fl with ready := rest }.workers, worker.duty.flight? = none := h.free
  have hsteps := steps_step e t { fl with ready := rest }
  generalize hfl' : e.step t { fl with ready := rest } = fl' at hsteps
  cases hsteps with
  | desk c lane => exact closes_desk e hfree lane c
  | worker w => exact hfl' ▸ closes_worker e hA h.shut (h.brisk.of_workers rfl rfl) hfree w
  | receiver _ _ _ duties => exact .keep (fun w worker ht => by cases ht) duties rfl
  | stop _ _ _ duties => exact .keep (fun w worker ht => by cases ht) duties rfl
  | _ => exact .keep (fun w worker ht => by cases ht) rfl rfl

theorem toClose_eq (fl : Floor σ) :
    fl.toClose = (fl.workers.map Worker.duty).countP Duty.isFresh +
      ((fl.workers.map Worker.duty).length - fl.doneCount) := by
  rw [List.countP_map, List.length_map]
  rfl

theorem Closing.duties (h : fl.Closing size) :
    ∀ duty ∈ fl.workers.map Worker.duty, duty.flight? = none := by
  intro duty hd
  obtain ⟨worker, hw, rfl⟩ := List.mem_map.1 hd
  exact h.free worker hw

theorem Closing.of_duties (h : fl.Closing size) (hm : e.Moves fl fl')
    (hduties : ∀ duty ∈ fl'.workers.map Worker.duty, duty.flight? = none) : fl'.Closing size :=
  ⟨h.orderly.moves hm, h.eager.moves h.orderly.numbered hm, h.brisk.moves h.orderly.numbered hm,
    h.shut.moves h.orderly hm,
    fun worker hw => hduties _ (List.mem_map.2 ⟨worker, hw, rfl⟩)⟩

/-- What a turn leaves to do: no more, and less if a worker that is done is counted. -/
theorem Closing.toClose_keep (h : fl.Closing size) {t : Turn} {rest : List Turn}
    (hr : fl.ready = t :: rest) (duties : fl'.workers.map Worker.duty =
        fl.workers.map Worker.duty)
    (count : fl'.doneCount = fl.doneCount + if t.isWorkerDone = true then 1 else 0) :
    fl'.toClose ≤ fl.toClose ∧ (t.isWorkerDone = true → fl'.toClose < fl.toClose) := by
  constructor
  · rw [toClose_eq, toClose_eq, duties, count]
    omega
  · intro hdone
    -- A worker that is done has not been counted before the scheduler learns of it.
    have hreports : 0 < fl.reports := by
      refine List.countP_pos_iff.2 ⟨t, ?_, hdone⟩
      rw [pending, hr]
      exact List.mem_append_left _ List.mem_cons_self
    have hcounted := h.orderly.staffed.counted
    have hmost : fl.doneWorkers ≤ fl.workers.length := List.countP_le_length
    rw [toClose_eq, toClose_eq, duties, count, if_pos hdone, List.length_map]
    omega

/-- A worker that has had its first turn has nothing to do any more. -/
theorem toClose_finish {w : Nat} {stopped : Bool} (get : (fl.workers.map Worker.duty)[w]? =
    some .fresh)
    (duties : fl'.workers.map Worker.duty =
      (fl.workers.map Worker.duty).modify w fun _ => .done stopped)
    (count : fl'.doneCount = fl.doneCount) : fl'.toClose < fl.toClose := by
  have hone := countP_modify (k := fun _ => Duty.done stopped) get Duty.isFresh
  have hfresh : (Duty.fresh : Duty σ).isFresh = true := rfl
  have hdone : (Duty.done stopped : Duty σ).isFresh = false := rfl
  rw [hfresh, hdone, if_pos rfl, if_neg Bool.false_ne_true] at hone
  rw [toClose_eq, toClose_eq, duties, count, List.length_modify]
  omega

/-- **A move leaves no more to do**, and less if a worker has its first turn, or the scheduler
learns that one is done. -/
theorem Closing.moves (h : fl.Closing size) (hm : e.Moves fl fl') :
    fl'.Closing size ∧ fl'.toClose ≤ fl.toClose ∧
      ∀ t rest, fl.ready = t :: rest →
        (∃ w worker, t = .worker w ∧ fl.workers[w]? = some worker ∧ worker.duty = .fresh) ∨
          t.isWorkerDone = true → fl'.toClose < fl.toClose := by
  cases hm with
  | round ready next =>
    have hfl' := (nextRound_eq_some next).2.2
    have hworkers : fl'.workers = fl.workers := by rw [hfl']
    have hcount : fl'.doneCount = fl.doneCount := by rw [hfl']
    have hmove : e.Moves fl fl' := .round ready next
    refine ⟨h.of_duties hmove ?_, ?_, ?_⟩
    · rw [hworkers]
      exact h.duties
    · unfold toClose
      rw [hworkers, hcount]
    · intro t rest hr
      rw [ready] at hr
      cases hr
  | @turn t rest ready other =>
    cases h.step (e := e) ready with
    | keep busy duties count =>
      obtain ⟨hle, hless⟩ := h.toClose_keep ready duties count
      refine ⟨h.of_duties (.turn ready other) ?_, hle, ?_⟩
      · rw [show _ = fl.workers.map Worker.duty from duties]
        exact h.duties
      · intro t' rest' hr hcounted
        rw [ready] at hr
        obtain ⟨rfl, -⟩ := List.cons.inj hr
        rcases hcounted with ⟨w, worker, ht, hget, hfresh⟩ | hdone
        · exact absurd hfresh (busy w worker ht hget)
        · exact hless hdone
    | @finish w worker stopped turn get fresh duties count =>
      have hget : (fl.workers.map Worker.duty)[w]? = some .fresh := by
        rw [List.getElem?_map, show fl.workers[w]? = some worker from get,
          Option.map_some, fresh]
      have hless := toClose_finish hget duties count
      refine ⟨h.of_duties (.turn ready other) ?_, Nat.le_of_lt hless, fun _ _ _ _ => hless⟩
      rw [duties]
      intro duty hd
      rcases mem_modify hget hd with rfl | hd
      · rfl
      · exact h.duties duty hd

theorem Closing.leads (h : fl.Closing size) (hl : e.Leads fl fl') :
    fl'.Closing size ∧ fl'.toClose ≤ fl.toClose := by
  refine hl.keeps (P := fun m => m.Closing size ∧ m.toClose ≤ fl.toClose) ?_ ⟨h, Nat.le_refl _⟩
  rintro m m' ⟨hclosing, hle⟩ hm
  obtain ⟨hclosing', hle', -⟩ := hclosing.moves hm
  exact ⟨hclosing', Nat.le_trans hle' hle⟩

/-- A worker that is to have a turn when no job will be taken any more and nobody has one has not
had any. -/
theorem Closing.fresh_of_call (h : fl.Closing size) {worker : Worker σ}
    (hget : fl.workers[w]? = some worker) (hc : worker.call ≠ .idle) : worker.duty = .fresh := by
  have hmem := List.mem_of_getElem? hget
  have hnone := h.free worker hmem
  cases hduty : worker.duty with
  | fresh => rfl
  | watching f =>
    rw [hduty] at hnone
    cases hnone
  | preempting f cause =>
    rw [hduty] at hnone
    cases hnone
  | telling jobId due next =>
    have hfree := h.brisk.free worker hmem
    rw [hduty] at hfree
    cases hfree
  | done stopped => exact absurd (h.orderly.staffed.rested worker hmem (by rw [hduty]; rfl)) hc

/-- Somebody is to have a turn after which there is less to do, or the scheduler goes on. -/
theorem Closing.next (h : fl.Closing size) (hsize : 0 < size) :
    ∃ t ∈ fl.pending, t = .scheduler ∨ t.isWorkerDone = true ∨
      ∃ w, t = .worker w ∧ w < fl.workers.length := by
  have hs := h.orderly.staffed
  by_cases hfresh : ∃ worker ∈ fl.workers, worker.duty = .fresh
  · obtain ⟨worker, hmem, hduty⟩ := hfresh
    obtain ⟨w, hget⟩ := List.mem_iff_getElem?.1 hmem
    have hcalls := hs.called w worker hget
    rw [if_neg (h.eager.called worker hmem hduty)] at hcalls
    obtain ⟨t, ht, hw⟩ := List.countP_pos_iff.1 (Nat.lt_of_lt_of_eq Nat.one_pos hcalls.symm)
    have hturn : t = .worker w := by
      cases t <;> simp [Turn.isWorker] at hw
      rw [hw]
    exact ⟨t, ht, .inr (.inr ⟨w, hturn, (List.getElem?_eq_some_iff.1 hget).1⟩)⟩
  · have hall : fl.doneWorkers = fl.workers.length := by
      refine List.countP_eq_length.2 fun worker hmem => ?_
      have hnone := h.free worker hmem
      cases hduty : worker.duty with
      | fresh => exact absurd ⟨worker, hmem, hduty⟩ hfresh
      | watching f =>
        rw [hduty] at hnone
        cases hnone
      | preempting f cause =>
        rw [hduty] at hnone
        cases hnone
      | telling jobId due next =>
        have hfree := h.brisk.free worker hmem
        rw [hduty] at hfree
        cases hfree
      | done stopped => rfl
    by_cases hcall : fl.schedulerCall = .idle
    · have hpos : 0 < fl.workers.length := by
        rw [h.eager.size]
        exact hsize
      have hne : fl.doneCount ≠ fl.workers.length := fun heq => hs.reported heq hpos hcall
      have hreports : 0 < fl.reports := by
        have hcounted := hs.counted
        omega
      obtain ⟨t, ht, hdone⟩ := List.countP_pos_iff.1 hreports
      exact ⟨t, ht, .inr (.inl hdone)⟩
    · have hsummons := hs.summoned
      rw [if_neg hcall] at hsummons
      obtain ⟨t, ht, hsched⟩ :=
        List.countP_pos_iff.1 (Nat.lt_of_lt_of_eq Nat.one_pos hsummons.symm)
      refine ⟨t, ht, .inl ?_⟩
      cases t <;> simp [Turn.isScheduler] at hsched
      rfl

/-- **A schedule in which no job will be taken any more, and no worker has one, ends.** -/
theorem Closing.ends (h : fl.Closing size) (hsize : 0 < size) : e.Ends fl := by
  -- By induction on what is left to do.
  induction hn : fl.toClose using Nat.strongRecOn generalizing fl with
  | ind n ih =>
    obtain ⟨t, ht, hkind⟩ := h.next hsize
    rcases Engine.comes_up (e := e) h.orderly ht with hends | ⟨m, rest, hl, hr⟩
    · exact hends
    obtain ⟨hm, hle⟩ := h.leads hl
    by_cases hsched : t = .scheduler
    · subst hsched
      exact ⟨m, rest, hl, hr⟩
    have hmove : e.Moves m (e.step t { m with ready := rest }) := .turn hr hsched
    obtain ⟨hm', -, hless⟩ := hm.moves hmove
    have hlt := hless t rest hr ?_
    · obtain ⟨m', rest', hl', hr'⟩ := ih _ (by omega) hm' rfl
      exact ⟨m', rest', (hl.tail hmove).trans hl', hr'⟩
    · rcases hkind with hkind | hdone | ⟨w, rfl, hw⟩
      · exact absurd hkind hsched
      · exact .inr hdone
      · have hlen : m.workers.length = fl.workers.length := hm.eager.size.trans h.eager.size.symm
        have hget : m.workers[w]? = some m.workers[w] := List.getElem?_eq_getElem (by omega)
        refine .inl ⟨w, _, rfl, hget, hm.fresh_of_call hget fun hidle => ?_⟩
        have hcalls := hm.orderly.staffed.called w _ hget
        rw [if_pos hidle] at hcalls
        have hpos : 0 < m.calls w := by
          refine List.countP_pos_iff.2 ⟨.worker w, ?_, decide_eq_true rfl⟩
          rw [pending, hr]
          exact List.mem_append_left _ List.mem_cons_self
        omega

/-! ## Schedules that nobody stops -/

/-- Nobody stops the schedule, and nobody will. -/
structure Calm (fl : Floor σ) : Prop where
  turns : .stop ∉ fl.pending
  timers : ∀ t ∈ fl.timers, t.alarm ≠ .stop
  doomed : fl.doomed = false
  workers : ∀ worker ∈ fl.workers, worker.call ≠ .cut ∧ worker.duty ≠ .done true

/-- A turn that leaves the workers as they are stops nobody. -/
theorem Calm.extend (h : fl.Calm) (hready : fl'.ready = fl.ready)
    (hlater : ∀ t ∈ fl'.later, t ∈ fl.later ∨ t ≠ .stop)
    (htimers : ∀ t ∈ fl'.timers, t ∈ fl.timers ∨ t.alarm ≠ .stop) (hdoomed : fl'.doomed =
        fl.doomed)
    (hworkers : ∀ worker ∈ fl'.workers, worker ∈ fl.workers ∨
      worker.call ≠ .cut ∧ worker.duty ≠ .done true) : fl'.Calm := by
  refine ⟨fun hmem => ?_, fun t ht => ?_, hdoomed.trans h.doomed, fun worker hw => ?_⟩
  · rcases List.mem_append.1 hmem with hmem | hmem
    · exact h.turns (List.mem_append_left _ (hready ▸ hmem))
    · rcases hlater _ hmem with hmem | hne
      · exact h.turns (List.mem_append_right _ hmem)
      · exact hne rfl
  · exact (htimers t ht).elim (h.timers t) id
  · exact (hworkers worker hw).elim (h.workers worker) id

/-- Turns that stop nobody are added. -/
theorem Calm.later {ts : List Turn} (h : fl.Calm) (hready : fl'.ready = fl.ready)
    (hlater : fl'.later = fl.later ++ ts) (htimers : fl'.timers = fl.timers)
    (hdoomed : fl'.doomed = fl.doomed) (hworkers : fl'.workers = fl.workers) (hts : ∀ t ∈ ts, t ≠
        .stop) :
    fl'.Calm :=
  h.extend hready (fun t ht => (List.mem_append.1 (hlater ▸ ht)).imp id (hts t))
    (fun _ ht => .inl (htimers ▸ ht)) hdoomed fun _ hx => .inl (hworkers ▸ hx)

theorem Calm.workerTurn (h : fl.Calm) (hA : fl.Assigned) (hshut : fl.Shut) (hbrisk : fl.Brisk)
    (hfree : ∀ worker ∈ fl.workers, worker.duty.flight? = none) (w : Nat) :
    (e.workerTurn w fl).Calm := by
  generalize hfl' : e.workerTurn w fl = fl'
  -- Without a flight, only a new worker does anything, and it finds no job to take.
  cases hfl' ▸ e.serves_workerTurn hA w with
  | missing get => exact h
  | @rest worker get done =>
    refine h.extend rfl (fun t ht => .inl ht) (fun t ht => .inl ht) rfl fun x hx => ?_
    rcases mem_modify get hx with rfl | hx
    · exact .inr ⟨by simp, (h.workers worker (List.mem_of_getElem? get)).2⟩
    · exact .inl hx
  | @stop worker get duty cut => exact absurd cut (h.workers worker (List.mem_of_getElem? get)).1
  | @seek worker quick _ get busy off seeks prompt =>
    have hnew := hbrisk.fresh_of_off (List.mem_of_getElem? get) busy off
    rw [prompt hbrisk.prompt hnew] at seeks
    have hidle : (Engine.idled w fl).Shut := hshut
    obtain ⟨ns, m, rfl⟩ := hidle.seeks seeks
    refine h.extend rfl (fun t ht => ?_) (fun t ht => .inl ht) rfl fun x hx => ?_
    · rcases List.mem_append.1 ht with ht | ht
      · exact .inl ht
      · rw [List.mem_singleton.1 ht]
        exact .inr (by simp)
    · have hx' : x ∈ (fl.workers.modify w _).modify w _ := hx
      rw [List.modify_modify_eq] at hx'
      rcases mem_modify get hx' with rfl | hx
      · exact .inr ⟨by simp, by simp⟩
      · exact .inl hx
  | tend get lane own post next => exact absurd (away_of_free hfree lane) post

/-- A message to a flight that nobody has in hand stops nobody. -/
theorem Calm.atDesk (h : fl.Calm) (hfree : ∀ worker ∈ fl.workers, worker.duty.flight? = none)
    (hv : fl.lane? f = some v) (c : Cue) : (fl.put f (e.cueTurn c v.desk)).Calm := by
  -- The flight has no worker, and gets none by its own turn.
  have haway : (e.cueTurn c v.desk).post = .away :=
    (e.stays_cueTurn (d := v.desk) rfl rfl c).1.trans (away_of_free hfree hv)
  have hput := putBack f (e.cueTurn c v.desk) fl
  obtain ⟨ts, hlater, hts, -⟩ := hput.later
  refine h.extend hput.ready (fun t ht => ?_) (fun t ht => ?_) hput.doomed fun x hx => ?_
  · rw [hlater] at ht
    rcases List.mem_append.1 ht with ht | ht
    · exact .inl ht
    · rcases hts t ht with ⟨g, c', rfl, -⟩ | rfl
      · exact .inr (by simp)
      · exact .inr (by simp)
  · rcases hput.timers t ht with ht | ⟨span, b, -, ha⟩
    · exact .inl ht
    · exact .inr (by rw [ha]; simp)
  · have hsame : (Worker.stand f .away (e.cueTurn c v.desk).call : Worker σ → Worker σ) = id :=
      rfl
    rw [hput.workers, haway, hsame, List.modify_id] at hx
    exact .inl hx

/-- Time passes. -/
theorem Calm.nextRound (h : fl.Calm) (next : fl.nextRound = some fl') : fl'.Calm := by
  rw [(nextRound_eq_some next).2.2]
  refine ⟨fun hmem => ?_, fun t ht => ?_, h.doomed, h.workers⟩
  · rcases List.mem_append.1 (show _ ∈ _ ++ [] from hmem) with hmem | hmem
    · rcases List.mem_append.1 hmem with hmem | hmem
      · exact h.turns (List.mem_append_right _ hmem)
      · obtain ⟨t, ht, hturn⟩ := List.mem_map.1 hmem
        have halarm := h.timers t (Timer.mem_of_mem_expired.1 ht)
        cases ha : t.alarm <;> simp_all [Alarm.turn]
    · cases hmem
  · exact h.timers t (Timer.mem_of_mem_expired.2 ht)

/-- **When no job will be taken any more and no worker has one, nobody is stopped unless somebody
stops the whole schedule.** -/
theorem Calm.moves (h : fl.Calm) (hc : fl.Closing size) (hm : e.Moves fl fl') : fl'.Calm := by
  cases hm with
  | round ready next => exact h.nextRound next
  | @turn t rest ready other =>
    have hpopped : { fl with ready := rest }.Calm := by
      refine ⟨fun hmem => h.turns ?_, h.timers, h.doomed, h.workers⟩
      rw [pending, ready]
      exact List.mem_cons_of_mem _ hmem
    have hsteps := steps_step e t { fl with ready := rest }
    generalize hfl' : e.step t { fl with ready := rest } = fl' at hsteps
    cases hsteps with
    | desk c lane => exact hpopped.atDesk hc.free lane c
    | nobody => exact hpopped
    | worker w =>
      exact hpopped.workerTurn (assigned_of_same hc.orderly.numbered.assigned rfl rfl) hc.shut
        (hc.brisk.of_workers rfl rfl) hc.free w
    | receiver w =>
      have hbrisk : { fl with ready := rest }.Brisk := hc.brisk.of_workers rfl rfl
      rw [← hfl', Engine.step, hbrisk.callTeller_eq]
      exact hpopped
    | workerDone w ts call calls =>
      exact hpopped.later rfl rfl rfl rfl rfl fun t ht => by simp [calls t ht]
    | scheduler => exact absurd rfl other
    | errand act g ts watches =>
      refine hpopped.later rfl rfl rfl rfl rfl fun t ht => ?_
      obtain ⟨f, rfl⟩ := watches t ht
      simp
    | stop =>
      refine absurd ?_ h.turns
      rw [pending, ready]
      exact List.mem_cons_self

theorem Calm.leads (h : fl.Calm) (hc : fl.Closing size) (hl : e.Leads fl fl') : fl'.Calm := by
  induction hl with
  | refl => exact h
  | tail hl hm ih => exact ih.moves (hc.leads hl).1 hm

/-- Such a schedule finishes. -/
theorem Calm.endOf (h : fl.Calm) : Engine.endOf fl = .finished := by
  have hnone : (fl.workers.any fun w => w.duty = .done true) = false :=
    List.any_eq_false.2 fun worker hw hd => (h.workers worker hw).2 (of_decide_eq_true hd)
  rw [Engine.endOf, h.doomed, hnone]
  rfl

/-- Nobody is going to stop a schedule that is started on this floor. -/
def Unstopped (fl : Floor σ) : Prop := .stop ∉ fl.pending ∧ ∀ t ∈ fl.timers, t.alarm ≠ .stop

theorem calm_staff (e : Engine) (jobs : List JobInstance) (h : fl.Unstopped) :
    (e.staff jobs fl).Calm := by
  refine ⟨fun hmem => ?_, h.2, rfl, fun worker hw => ?_⟩
  · have hmem' : .stop ∈ fl.ready ++ (fl.later ++ _) := hmem
    rw [← List.append_assoc] at hmem'
    rcases List.mem_append.1 hmem' with hmem | hmem
    · exact h.1 hmem
    · obtain ⟨w, -, hw⟩ := List.mem_map.1 hmem
      cases hw
  · rw [List.eq_of_mem_replicate hw]
    exact ⟨by simp, by simp⟩

end Floor

/-- An engine that can run anything has workers for some jobs. -/
theorem Engine.crew_pos {e : Engine} (hfault : e.concurrencyFault? = none)
    {jobs : List JobInstance}
    (hjobs : jobs ≠ []) : 0 < min e.maxConcurrency.toNat jobs.length := by
  have hworkers : 1 ≤ e.maxConcurrency := by
    unfold Engine.concurrencyFault? at hfault
    split at hfault
    · cases hfault
    · omega
  have hlength := List.length_pos_of_ne_nil hjobs
  omega

end Conveyor
