import Conveyor.Proofs.Schedule.Moments
import Mathlib.Data.Finset.Card
import Mathlib.Data.Finset.Range

/-!
# Who has which flight in hand

Each worker has one flight in hand at most, and each flight is in the hands of one worker at
most. So there are never more flights in hand than workers; and as long as jobs are queued, time
passes only when every worker has one.

- `Floor.Eager`: the crew is complete, and a worker that has taken nothing yet is to have a turn.
- `Floor.Eager.moves`: **moves keep it so**.
- `Floor.Brisk`: no worker waits for the receiver; `Floor.Brisk.moves` says that it stays so.
- `Floor.inHand`: a worker has the flight in hand.
- `Floor.card_handled_le`, `Floor.card_handled_lt`: flights in hand are at most as many as
  workers, and fewer if one of the workers has another.
- `Floor.length_le_card_handled`: **if time passes while jobs are queued, every worker has a
  flight**.
-/

namespace Conveyor

variable {σ : Type}

/-- The flight that a worker with this duty has in hand, if any. -/
def Duty.flight? : Duty σ → Option Nat
  | watching f => some f
  | preempting f _ => some f
  | _ => none

theorem Duty.postOn_ne_away {d : Duty σ} {f : Nat} :
    d.postOn f ≠ .away ↔ d.flight? = some f := by
  cases d with
  | fresh => simp [postOn, flight?]
  | telling jobId due next => simp [postOn, flight?]
  | done stopped => simp [postOn, flight?]
  | watching g => by_cases h : g = f <;> simp [postOn, flight?, h]
  | preempting g cause => by_cases h : g = f <;> simp [postOn, flight?, h]

namespace Floor

variable {e : Engine} {fl fl' : Floor σ} {f w size : Nat} {v : Lane}

/-! ## Workers that have taken nothing yet -/

/-- The crew is complete, and a worker that has taken nothing yet is to have a turn. -/
structure Eager (size : Nat) (fl : Floor σ) : Prop where
  size : fl.workers.length = size
  called : ∀ worker ∈ fl.workers, worker.duty = .fresh → worker.call ≠ .idle

theorem Eager.of_workers (h : fl.Eager size) (hworkers : fl'.workers = fl.workers) :
    fl'.Eager size := by
  constructor
  · rw [hworkers]
    exact h.size
  · rw [hworkers]
    exact h.called

/-- One worker changes. -/
theorem Eager.modify (h : fl.Eager size) {k : Worker σ → Worker σ}
    (hworkers : fl'.workers = fl.workers.modify w k)
    (hk : ∀ worker ∈ fl.workers, (k worker).duty = .fresh → (k worker).call ≠ .idle) :
    fl'.Eager size := by
  constructor
  · rw [hworkers, List.length_modify]
    exact h.size
  · intro x hx
    rw [hworkers] at hx
    obtain ⟨u, hu⟩ := List.mem_iff_getElem?.1 hx
    rw [List.getElem?_modify] at hu
    obtain ⟨worker, hget, rfl⟩ := Option.map_eq_some_iff.1 hu
    have hmem : worker ∈ fl.workers := List.mem_of_getElem? hget
    split
    · exact hk worker hmem
    · exact h.called worker hmem

/-- A worker that looks for a job is not new any more. -/
theorem workers_seeks {told : Option Text} {quick : Bool} (h : e.Seeks w told fl quick fl') :
    ∃ k : Worker σ → Worker σ, fl'.workers = fl.workers.modify w k ∧ ∀ x, (k x).duty ≠
    .fresh := by
  obtain ⟨k, hk, hover, hheld⟩ := h.workers
  refine ⟨k, hk, fun x hx => ?_⟩
  cases quick with
  | true => rcases hover rfl x with hd | hd <;> rw [hd] at hx <;> cases hx
  | false => rcases hheld rfl x with hd | ⟨jobId, due, next, hd⟩ <;> rw [hd] at hx <;> cases hx

/-- A worker that goes on is not new any more. -/
theorem workers_carries {jobId : Text} {sq : Sequel} (h : e.Carries w jobId fl sq fl') :
    ∃ k : Worker σ → Worker σ, fl'.workers = fl.workers.modify w k ∧
      ∀ x, x.duty ≠ .fresh → (k x).duty ≠ .fresh := by
  cases h with
  | stay => exact ⟨id, by simp, fun x hx => hx⟩
  | stop => exact ⟨fun x => { x with duty := .done true }, rfl, by simp⟩
  | free seeks =>
    obtain ⟨k, hk, hfresh⟩ := workers_seeks seeks
    exact ⟨k, hk, fun x _ => hfresh x⟩

theorem Eager.put (h : fl.Eager size) (f : Nat) (d : Desk) : (fl.put f d).Eager size := by
  refine h.modify (putBack f d fl).workers fun worker hw => ?_
  cases hp : d.post with
  | away => exact h.called worker hw
  | watching => exact fun hd => by cases hd
  | preempting cause => exact fun hd => by cases hd

theorem Eager.workerTurn (h : fl.Eager size) (hA : fl.Assigned) (e : Engine) (w : Nat) :
    (e.workerTurn w fl).Eager size := by
  generalize hfl' : e.workerTurn w fl = fl'
  cases hfl' ▸ e.serves_workerTurn hA w with
  | missing get => exact h
  | @rest worker get done =>
    -- Somebody who is done has taken something before.
    refine h.modify (w := w) (k := fun x => if x.duty.isDone = true then
      { x with call := .idle } else x) ?_ ?_
    · refine List.ext_getElem? fun u => ?_
      show (fl.workers.modify w _)[u]? = _
      rw [List.getElem?_modify, List.getElem?_modify]
      by_cases hu : w = u
      · subst hu
        rw [get]
        simp [done]
      · simp [hu]
    · intro x hx hfresh
      split at hfresh
      · rename_i hd
        rw [hfresh] at hd
        cases hd
      · rename_i hd
        rw [if_neg hd]
        exact h.called x hx hfresh
  | stop get duty =>
    have hk : (Engine.endWorker w true (Engine.idled w fl)).workers =
        (fl.workers.modify w fun x => { x with call := .idle }).modify w
          fun x => { x with duty := .done true } := rfl
    rw [List.modify_modify_eq] at hk
    exact h.modify hk fun x _ hx => by cases hx
  | seek get busy off seeks =>
    obtain ⟨k, hk, hfresh⟩ := workers_seeks seeks
    have hk' : fl'.workers = (fl.workers.modify w fun x => { x with call := .idle }).modify
      w k := hk
    rw [List.modify_modify_eq] at hk'
    exact h.modify hk' fun x _ hx => absurd hx (hfresh _)
  | @tend worker f v _ get lane own post next =>
    have htends := v.tends_tend e post
    obtain ⟨k, hk, hfresh⟩ := workers_carries next
    have hw : (v.tend e).1.flight.worker = w := htends.worker.trans own
    have hstand : ∀ x : Worker σ, (Worker.stand f (v.tend e).1.post (v.tend e).1.call x).duty ≠
        .fresh := by
      intro x
      cases hp : (v.tend e).1.post with
      | away => exact absurd hp htends.post
      | watching => exact fun hd => by cases hd
      | preempting cause => exact fun hd => by cases hd
    have hk' : fl'.workers = ((fl.workers.modify w fun x => { x with call := .idle }).modify w
        (Worker.stand f (v.tend e).1.post (v.tend e).1.call)).modify w k := by
      rw [hk, (putBack f _ _).workers, hw]
      rfl
    rw [List.modify_modify_eq, List.modify_modify_eq] at hk'
    exact h.modify hk' fun x _ hx => absurd hx (hfresh _ (hstand _))

theorem Eager.callTeller (h : fl.Eager size) (w : Nat) : (fl.callTeller w).Eager size := by
  rcases fl.callTeller_eq w with hsame | ⟨worker, -, -, -, hcalls⟩
  · rwa [hsame]
  · rw [hcalls]
    exact h.modify (w := w) (k := fun x => { x with call := .called }) rfl fun _ _ _ hc => by
      cases hc

theorem Eager.cutWorker (h : fl.Eager size) (w : Nat) : (fl.cutWorker w).Eager size := by
  have hcut : { fl with workers := fl.workers.modify w fun x => { x with call := .cut } }.Eager
      size :=
    h.modify rfl fun _ _ _ hc => by cases hc
  unfold Floor.cutWorker
  split
  · split
    · exact h
    · dsimp only
      split
      · exact hcut.of_workers rfl
      · exact hcut
  · exact h

/-- **Moves keep the crew complete and eager.** -/
theorem Eager.moves (h : fl.Eager size) (hn : fl.Numbered) (hm : e.Moves fl fl') :
    fl'.Eager size := by
  cases hm with
  | @turn t rest ready other =>
    have hA : { fl with ready := rest }.Assigned := assigned_of_same hn.assigned rfl rfl
    have hpop : { fl with ready := rest }.Eager size := h.of_workers rfl
    generalize ({ fl with ready := rest } : Floor σ) = m at hA hpop
    cases t with
    | flight f c =>
      show (m.atDesk f (e.cueTurn c)).Eager size
      unfold atDesk
      split
      · exact hpop.put f _
      · exact hpop
    | worker w => exact hpop.workerTurn hA e w
    | receiver w => exact hpop.callTeller w
    | workerDone w =>
      obtain ⟨ts, call, hdone, -⟩ := workerDoneTurn_eq w m
      rw [Engine.step, hdone]
      exact hpop.of_workers rfl
    | scheduler => exact absurd rfl other
    | errand act => exact hpop.of_workers (workers_moveTo _ _)
    | stop =>
      have hfold : ∀ (ws : List Nat) (n : Floor σ), n.Eager size →
          (ws.foldl (fun fl w => fl.cutWorker w) n).Eager size := by
        intro ws
        induction ws with
        | nil => exact fun n hn => hn
        | cons w ws ih => exact fun n hn => ih _ (hn.cutWorker w)
      show m.stopTurn.Eager size
      unfold stopTurn
      split
      · exact hfold _ m hpop
      · exact hpop.of_workers rfl
  | round ready next =>
    refine h.of_workers ?_
    rw [(nextRound_eq_some next).2.2]

theorem Eager.leads (h : fl.Eager size) (ho : fl.Orderly) (hl : e.Leads fl fl') :
    fl'.Eager size := by
  induction hl with
  | refl => exact h
  | tail hl hm ih => exact ih.moves (ho.leads hl).numbered hm

theorem eager_staff (e : Engine) (jobs : List JobInstance) (fl : Floor σ) :
    (e.staff jobs fl).Eager (min e.maxConcurrency.toNat jobs.length) := by
  constructor
  · exact List.length_replicate
  · intro worker hw
    rw [List.eq_of_mem_replicate hw]
    exact fun _ hc => by cases hc

/-! ## Prompt receivers -/

/-- The receiver is prompt, so that no worker waits for it. -/
structure Brisk (fl : Floor σ) : Prop where
  prompt : fl.receiver.Prompt
  free : ∀ worker ∈ fl.workers, worker.duty.told? = none

theorem Brisk.of_workers (h : fl.Brisk) (hreceiver : fl'.receiver = fl.receiver)
    (hduty : fl'.workers.map Worker.duty = fl.workers.map Worker.duty) : fl'.Brisk := by
  refine ⟨hreceiver ▸ h.prompt, fun worker hw => ?_⟩
  have hd : worker.duty ∈ fl.workers.map Worker.duty := hduty ▸ List.mem_map_of_mem hw
  obtain ⟨worker', hw', hsame⟩ := List.mem_map.1 hd
  rw [← hsame]
  exact h.free worker' hw'

/-- One worker changes. -/
theorem Brisk.modify (h : fl.Brisk) {k : Worker σ → Worker σ} (hreceiver : fl'.receiver =
    fl.receiver)
    (hworkers : fl'.workers = fl.workers.modify w k)
    (hk : ∀ worker ∈ fl.workers, (k worker).duty.told? = none) : fl'.Brisk := by
  refine ⟨hreceiver ▸ h.prompt, fun x hx => ?_⟩
  rw [hworkers] at hx
  obtain ⟨u, hu⟩ := List.mem_iff_getElem?.1 hx
  rw [List.getElem?_modify] at hu
  obtain ⟨worker, hget, rfl⟩ := Option.map_eq_some_iff.1 hu
  have hmem : worker ∈ fl.workers := List.mem_of_getElem? hget
  split
  · exact hk worker hmem
  · exact h.free worker hmem

theorem Brisk.seeks (h : fl.Brisk) {told : Option Text} (hs : e.Seeks w told fl true fl') :
    fl'.Brisk := by
  obtain ⟨k, hk, hover, -⟩ := hs.workers
  refine h.modify hs.receiver hk fun x _ => ?_
  rcases hover rfl x with hd | hd <;> rw [hd] <;> rfl

theorem Brisk.put (h : fl.Brisk) (f : Nat) (d : Desk) : (fl.put f d).Brisk := by
  refine h.modify (putBack f d fl).receiver (putBack f d fl).workers fun worker hw => ?_
  cases hp : d.post with
  | away => exact h.free worker hw
  | watching => rfl
  | preempting cause => rfl

/-- A worker that is at no job is new. -/
theorem Brisk.fresh_of_off (h : fl.Brisk) {worker : Worker σ} (hw : worker ∈ fl.workers)
    (busy : worker.duty.isDone = false) (off : ∀ f, worker.duty.postOn f = .away) :
    worker.duty = .fresh := by
  have hfree := h.free worker hw
  cases hduty : worker.duty with
  | fresh => rfl
  | watching f =>
    have hf := off f
    simp [hduty, Duty.postOn] at hf
  | preempting f cause =>
    have hf := off f
    simp [hduty, Duty.postOn] at hf
  | telling jobId due next =>
    rw [hduty] at hfree
    cases hfree
  | done stopped =>
    rw [hduty] at busy
    cases busy

theorem Brisk.workerTurn (h : fl.Brisk) (hA : fl.Assigned) (e : Engine) (w : Nat) :
    (e.workerTurn w fl).Brisk := by
  have hidle : (Engine.idled w fl).Brisk :=
    h.of_workers rfl (duty_modify_call fl.workers w .idle)
  generalize hfl' : e.workerTurn w fl = fl'
  cases hfl' ▸ e.serves_workerTurn hA w with
  | missing get => exact h
  | rest get done => exact hidle
  | stop get duty =>
    exact hidle.modify (w := w) (k := fun x => { x with duty := .done true }) rfl rfl fun _ _ =>
      rfl
  | @seek worker quick _ get busy off seeks prompt =>
    have hfresh := h.fresh_of_off (List.mem_of_getElem? get) busy off
    rw [prompt h.prompt hfresh] at seeks
    exact hidle.seeks seeks
  | @tend worker f v _ get lane own post next =>
    have hput := hidle.put f (v.tend e).1
    generalize (v.tend e).2 = sq at next
    cases next with
    | stay => exact hput
    | stop =>
      exact hput.modify (w := w) (k := fun x => { x with duty := .done true }) rfl rfl fun _ _ =>
        rfl
    | free seeks prompt =>
      rw [prompt hput.prompt] at seeks
      exact hput.seeks seeks

/-- When nobody waits for the receiver, nobody is called on its behalf. -/
theorem Brisk.callTeller_eq (h : fl.Brisk) (w : Nat) : fl.callTeller w = fl := by
  rcases fl.callTeller_eq w with hsame | ⟨worker, hget, hwaited, -⟩
  · exact hsame
  · have hfree := h.free worker (List.mem_of_getElem? hget)
    cases hduty : worker.duty with
    | telling jobId due next =>
      rw [hduty] at hfree
      cases hfree
    | _ =>
      rw [hduty] at hwaited
      cases hwaited

/-- **With a prompt receiver no worker ever waits for it.** -/
theorem Brisk.moves (h : fl.Brisk) (hn : fl.Numbered) (hm : e.Moves fl fl') : fl'.Brisk := by
  cases hm with
  | @turn t rest ready other =>
    have hA : { fl with ready := rest }.Assigned := assigned_of_same hn.assigned rfl rfl
    have hpop : { fl with ready := rest }.Brisk := h.of_workers rfl rfl
    have hsteps := steps_step e t { fl with ready := rest }
    generalize e.step t { fl with ready := rest } = fl' at hsteps
    cases hsteps with
    | desk c lane => exact hpop.put _ _
    | worker w => exact hpop.workerTurn hA e w
    | receiver w ws ts duties => exact h.of_workers rfl duties
    | stop ws ts doom duties => exact h.of_workers rfl duties
    | _ => exact h.of_workers rfl rfl
  | round ready next =>
    rw [(nextRound_eq_some next).2.2]
    exact h.of_workers rfl rfl

theorem Brisk.leads (h : fl.Brisk) (ho : fl.Orderly) (hl : e.Leads fl fl') : fl'.Brisk := by
  induction hl with
  | refl => exact h
  | tail hl hm ih => exact ih.moves (ho.leads hl).numbered hm

theorem brisk_staff (e : Engine) (jobs : List JobInstance) (h : fl.receiver.Prompt) :
    (e.staff jobs fl).Brisk := by
  refine ⟨h, fun worker hw => ?_⟩
  rw [List.eq_of_mem_replicate hw]
  rfl

/-! ## Flights in hand -/

/-- Does a worker have the flight in hand? -/
def inHand (fl : Floor σ) (f : Nat) : Bool := (fl.lane? f).any fun v => v.post ≠ .away

theorem inHand_iff : fl.inHand f = true ↔ ∃ v, fl.lane? f = some v ∧ v.post ≠ .away := by
  simp [inHand, Option.any_eq_true]

/-- When no worker has a flight, none is in hand. -/
theorem away_of_free (h : ∀ worker ∈ fl.workers, worker.duty.flight? = none)
    (hv : fl.lane? f = some v) : v.post = .away := by
  by_contra hp
  obtain ⟨worker, hget, hpost, -⟩ := worker_of_lane hv hp
  have hsome : worker.duty.flight? = some f := by
    rw [← Duty.postOn_ne_away, hpost]
    exact hp
  rw [h worker (List.mem_of_getElem? hget)] at hsome
  cases hsome

/-- The number of the worker that took a flight. -/
def workerOf (fl : Floor σ) (f : Nat) : Nat := ((fl.lane? f).map fun v => v.flight.worker).getD 0

theorem workerOf_eq (hv : fl.lane? f = some v) : fl.workerOf f = v.flight.worker := by
  simp [workerOf, hv]

/-- Flights in hand are in the hands of different workers. -/
theorem injOn_workerOf : Set.InjOn fl.workerOf { f | fl.inHand f = true } := by
  intro f hf g hg heq
  obtain ⟨v, hv, hp⟩ := inHand_iff.1 hf
  obtain ⟨u, hu, hq⟩ := inHand_iff.1 hg
  rw [workerOf_eq hv, workerOf_eq hu] at heq
  exact (flight_unique hv hu hp hq heq.symm).symm

theorem workerOf_lt (hf : fl.inHand f = true) : fl.workerOf f < fl.workers.length := by
  obtain ⟨v, hv, hp⟩ := inHand_iff.1 hf
  obtain ⟨worker, hget, -⟩ := worker_of_lane hv hp
  rw [workerOf_eq hv]
  exact (List.getElem?_eq_some_iff.1 hget).1

/-- The flights that are in hand among some that follow each other. -/
def handled (fl : Floor σ) (first n : Nat) : Finset Nat :=
  (Finset.range n).filter fun j => fl.inHand (first + j)

/-- **There are not more flights in hand than workers.** -/
theorem card_handled_le (first n : Nat) : (fl.handled first n).card ≤ fl.workers.length := by
  rw [← Finset.card_range fl.workers.length]
  refine Finset.card_le_card_of_injOn (fun j => fl.workerOf (first + j)) ?_ ?_
  · intro j hj
    exact Finset.mem_coe.2 (Finset.mem_range.2 (workerOf_lt (Finset.mem_filter.1 hj).2))
  · intro i hi j hj heq
    have h := injOn_workerOf (Finset.mem_filter.1 hi).2 (Finset.mem_filter.1 hj).2 heq
    omega

/-- If one of the workers has another flight in hand, there are fewer. -/
theorem card_handled_lt {first n g : Nat} (hg : fl.inHand g = true) (hn : first + n ≤ g) :
    (fl.handled first n).card < fl.workers.length := by
  have hmem : fl.workerOf g ∈ Finset.range fl.workers.length :=
    Finset.mem_range.2 (workerOf_lt hg)
  have hpos : 0 < fl.workers.length := Nat.lt_of_le_of_lt (Nat.zero_le _) (workerOf_lt hg)
  have hle : (fl.handled first n).card ≤
      ((Finset.range fl.workers.length).erase (fl.workerOf g)).card := by
    refine Finset.card_le_card_of_injOn (fun j => fl.workerOf (first + j)) ?_ ?_
    · intro j hj
      obtain ⟨hjn, hj⟩ := Finset.mem_filter.1 hj
      refine Finset.mem_coe.2 (Finset.mem_erase.2 ⟨fun heq => ?_,
        Finset.mem_range.2 (workerOf_lt hj)⟩)
      have h := injOn_workerOf hj hg heq
      have hlt := Finset.mem_range.1 hjn
      omega
    · intro i hi j hj heq
      have h := injOn_workerOf (Finset.mem_filter.1 hi).2 (Finset.mem_filter.1 hj).2 heq
      omega
  rw [Finset.card_erase_of_mem hmem, Finset.card_range] at hle
  omega

/-- When nobody is to have a turn and jobs are queued, every worker has a flight in hand. -/
theorem busy_of_quiet (ho : fl.Orderly) (he : fl.Eager size) (hb : fl.Brisk)
    (hquiet : fl.pending = [])
    (hqueue : fl.queue ≠ []) (hstop : ¬fl.Stopped) {worker : Worker σ}
    (hget : fl.workers[w]? = some worker) : ∃ f, worker.duty.flight? = some f := by
  have hmem : worker ∈ fl.workers := List.mem_of_getElem? hget
  cases hd : worker.duty with
  | fresh =>
    have hcalls := ho.staffed.called w worker hget
    rw [if_neg (he.called worker hmem hd), calls, hquiet] at hcalls
    cases hcalls
  | done stopped =>
    cases stopped with
    | false => exact absurd (ho.staffed.drained ⟨worker, hmem, hd⟩) hqueue
    | true => exact absurd ⟨worker, hmem, hd⟩ hstop
  | telling jobId due next =>
    have hfree := hb.free worker hmem
    rw [hd] at hfree
    cases hfree
  | watching f => exact ⟨f, rfl⟩
  | preempting f cause => exact ⟨f, rfl⟩

/-- **When nobody is to have a turn and jobs are queued, as many flights are in hand as there are
workers.** -/
theorem length_le_card_handled (ho : fl.Orderly) (he : fl.Eager size) (hb : fl.Brisk)
    (hquiet : fl.pending = [])
    (hqueue : fl.queue ≠ []) (hstop : ¬fl.Stopped) {first n : Nat}
    (hold : ∀ f v, fl.lane? f = some v → f < first → v.post = .away)
    (hlength : fl.flights.length = first + n) :
    fl.workers.length ≤ (fl.handled first n).card := by
  -- The flight that a worker has in hand, counted from the first of the schedule.
  let flightOf : Nat → Nat :=
    fun w => ((fl.workers[w]?).bind fun x => x.duty.flight?).getD 0 - first
  have hflight : ∀ w ∈ Finset.range fl.workers.length, ∃ v, fl.lane? (first + flightOf w) =
      some v ∧
      v.flight.worker = w ∧ v.post ≠ .away ∧ flightOf w < n := by
    intro w hw
    have hget := List.getElem?_eq_getElem (Finset.mem_range.1 hw)
    obtain ⟨f, hf⟩ := busy_of_quiet ho he hb hquiet hqueue hstop hget
    obtain ⟨v, hv, hown, hpost, -⟩ :=
      lane?_of_duty ho.numbered.assigned hget (Duty.postOn_ne_away.2 hf)
    have hp : v.post ≠ .away := by
      rw [hpost]
      exact Duty.postOn_ne_away.2 hf
    have hle : first ≤ f := Nat.le_of_not_lt fun hlt => hp (hold f v hv hlt)
    have hof : flightOf w = f - first := by
      show ((fl.workers[w]?).bind fun x => x.duty.flight?).getD 0 - first = f - first
      rw [hget, Option.bind_some, hf, Option.getD_some]
    obtain ⟨x, hx, -⟩ := lane?_eq_some.1 hv
    have hlt : f < fl.flights.length := (List.getElem?_eq_some_iff.1 hx).1
    refine ⟨v, ?_, hown, hp, ?_⟩
    · rw [hof, Nat.add_sub_cancel' hle]
      exact hv
    · omega
  rw [← Finset.card_range fl.workers.length]
  refine Finset.card_le_card_of_injOn flightOf ?_ ?_
  · intro w hw
    obtain ⟨v, hv, -, hp, hlt⟩ := hflight w hw
    exact Finset.mem_coe.2 (Finset.mem_filter.2 ⟨Finset.mem_range.2 hlt,
      inHand_iff.2 ⟨v, hv, hp⟩⟩)
  · intro w hw u hu heq
    obtain ⟨v, hv, hown, -⟩ := hflight w hw
    obtain ⟨v', hv', hown', -⟩ := hflight u hu
    rw [heq, hv'] at hv
    rw [← hown, ← hown', Option.some.inj hv]

end Floor

end Conveyor
