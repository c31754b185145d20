import Conveyor.Proofs.Schedule.Accounts
import Conveyor.Proofs.Schedule.Hands
import Mathlib.Order.Bounds.Defs

/-!
# Jobs are taken as early as possible

Jobs are taken in order, each as soon as fewer of those before it are under way than there are
workers. Nothing that a job does can cost a worker: not that it fails, nor that it is given up.

- `Note.isResult`, `heldAt`: a flight, of which this was seen, is under way at a time.
- `ScheduleReport.startOf`, `ScheduleReport.held`: when a flight was taken, and how many of the
  first flights are under way at a time.
- `underway`: the flights under way when this much was seen.
- `ScheduleReport.Greedy`: jobs are taken in order, never too many, and never too late.
- `Floor.Dispatched`: what holds at every moment of a schedule; `Floor.Timely`: what it says of
  one flight.
- `Floor.Dispatched.keep`, `Floor.Dispatched.take`, `Floor.Dispatched.moves`: no job is taken, or
  one is.
- `Engine.greedy_schedule`: **every schedule is greedy, up to each of its moments**.
-/

namespace Conveyor

variable {σ : Type}

/-- Does the note say that a job has a result? -/
def Note.isResult : Note → Bool
  | .completed _ => true
  | _ => false

/-- Is a flight, of which this was seen, under way at a time: was it taken by then, and has it no
result by then? -/
def heldAt (time : Nat) (seen : List TimedNote) : Bool :=
  (seen.head?.any fun n => n.1 ≤ time) && !seen.any fun n => n.1 ≤ time && n.2.isResult

/-- How many of the `n` flights from number `first` on are under way at a time. -/
def heldAmong (first n time : Nat) (seen : Nat → List TimedNote) : Nat :=
  ((Finset.range n).filter fun j => heldAt time (seen (first + j)) = true).card

/-- Was something of a flight seen? -/
def begunIn (past : List Sighting) (f : Nat) : Bool := past.any fun s => s.flight = some f

/-- Which of the `n` flights from number `first` on are under way when this much was seen:
something was seen of them, but not their result. -/
def underway (first n : Nat) (past : List Sighting) : Finset Nat :=
  (Finset.range n).filter fun j => begunIn past (first + j) = true ∧
    ∀ s ∈ past, s.flight = some (first + j) → s.note.isResult = false

namespace ScheduleReport

/-- When a flight was taken. -/
def startOf (s : ScheduleReport) (f : Nat) : Option Nat := (s.seenOf f).head?.map Prod.fst

/-- How many of the `n` flights from number `first` on are under way at a time. -/
def held (s : ScheduleReport) (first n time : Nat) : Nat := heldAmong first n time s.seenOf

/-- Jobs are taken in order, never too many, and never too late. The jobs are the flights from
number `first` on, and time begins at `start`. -/
structure Greedy (first start slots : Nat) (s : ScheduleReport) : Prop where
  /-- The flights are those of the jobs, in order. -/
  ids : ∀ k, first + k < s.ids.length → s.ids[first + k]? = (s.jobs[k]?).map JobInstance.id
  /-- At every point, the first so many jobs have been taken. -/
  inOrder : ∀ past, past <+: s.sightings → ∃ c ≤ s.jobs.length, ∀ k,
    begunIn past (first + k) = true ↔ k < c
  /-- At every point, at most as many jobs are under way as there are slots. -/
  bounded : ∀ past, past <+: s.sightings → (underway first s.jobs.length past).card ≤ slots
  /-- A job is taken at the first time at which fewer of those before it are under way. -/
  least : ∀ k t, s.startOf (first + k) = some t →
    IsLeast { u | start ≤ u ∧ s.held first k u < slots } t
  /-- As long as a job is queued, as many of those before it are under way as there are slots. -/
  waiting : ∀ k < s.jobs.length, s.startOf (first + k) = none → ∀ u, start ≤ u → u < s.endedAt →
    slots ≤ s.held first k u

end ScheduleReport

/-! ## What is seen later -/

/-- What is seen later does not change what was under way before. -/
theorem heldAt_append_of_lt {time : Nat} {seen new : List TimedNote} (h : ∀ n ∈ new,
    time < n.1) :
    heldAt time (seen ++ new) = heldAt time seen := by
  have hnew : (new.any fun n => n.1 ≤ time && n.2.isResult) = false := by
    rw [List.any_eq_false]
    intro n hn
    have hlt := h n hn
    simp only [Bool.and_eq_true, decide_eq_true_eq, not_and]
    omega
  unfold heldAt
  rw [List.any_append, hnew, Bool.or_false]
  cases seen with
  | cons n rest => rfl
  | nil =>
    cases new with
    | nil => rfl
    | cons n rest =>
      have hlt := h n List.mem_cons_self
      simp [Nat.not_le.2 hlt]

/-- A flight that was taken does not get under way again. -/
theorem heldAt_of_append {time : Nat} {seen new : List TimedNote} (hne : seen ≠ [])
    (h : heldAt time (seen ++ new) = true) : heldAt time seen = true := by
  unfold heldAt at h ⊢
  rw [List.any_append, List.head?_append_of_ne_nil _ hne] at h
  simp only [Bool.and_eq_true, Bool.not_eq_true', Bool.or_eq_false_iff] at h ⊢
  exact ⟨h.1, h.2.1⟩

theorem heldAmong_congr {first n time : Nat} {g k : Nat → List TimedNote}
    (h : ∀ j < n, heldAt time (g (first + j)) = heldAt time (k (first + j))) :
    heldAmong first n time g = heldAmong first n time k := by
  unfold heldAmong
  congr 1
  refine Finset.filter_congr fun j hj => ?_
  rw [h j (Finset.mem_range.1 hj)]

theorem heldAmong_le {first n time : Nat} {g k : Nat → List TimedNote}
    (h : ∀ j < n, heldAt time (g (first + j)) = true → heldAt time (k (first + j)) = true) :
    heldAmong first n time g ≤ heldAmong first n time k := by
  refine Finset.card_le_card fun j hj => ?_
  obtain ⟨hjn, hheld⟩ := Finset.mem_filter.1 hj
  exact Finset.mem_filter.2 ⟨hjn, h j (Finset.mem_range.1 hjn) hheld⟩

theorem heldAmong_mono {first n n' time : Nat} {g : Nat → List TimedNote} (h : n ≤ n') :
    heldAmong first n time g ≤ heldAmong first n' time g :=
  Finset.card_le_card (Finset.filter_subset_filter _ (Finset.range_mono h))

namespace Floor

/-- What was seen of each flight on a floor. -/
def views (fl : Floor σ) (f : Nat) : List TimedNote := seenOf f fl.seen

/-! ## What holds at every moment -/

/-- Jobs were taken in order and as early as possible; the first of them is flight number
`first`, and time began at `start`. -/
structure Dispatched (jobs : List JobInstance) (first start slots taken : Nat) (fl : Floor σ) :
    Prop where
  eager : fl.Eager (min slots jobs.length)
  brisk : fl.Brisk
  started : start ≤ fl.now
  length : fl.flights.length = first + taken
  most : taken ≤ jobs.length
  queue : fl.queue = jobs.drop taken
  jobs : ∀ k x, fl.flights[first + k]? = some x → jobs[k]? = some x.job
  /-- The first that is seen of a flight is that it is taken. -/
  begun : ∀ k x, fl.flights[first + k]? = some x → ∃ n rest,
    fl.views (first + k) = (x.takenAt, n) :: rest
  past : ∀ k, ∀ n ∈ fl.views (first + k), n.1 ≤ fl.now
  /-- Before a job was taken, enough of those before it were under way. -/
  full : ∀ k x, fl.flights[first + k]? = some x → start ≤ x.takenAt ∧
    ∀ u, start ≤ u → u < x.takenAt → slots ≤ heldAmong first k u fl.views
  /-- When a job was taken, fewer of those before it were. -/
  free : ∀ k x, fl.flights[first + k]? = some x → heldAmong first k x.takenAt fl.views < slots
  /-- As long as jobs are queued, enough of those that were taken are under way. -/
  waiting : fl.queue ≠ [] → ∀ u, start ≤ u → u < fl.now →
    slots ≤ heldAmong first taken u fl.views

variable {e : Engine} {fl fl' m : Floor σ} {jobs : List JobInstance}
    {first start slots taken f : Nat}
  {v : Lane}

/-- Of a flight that was not taken yet, nothing was seen. -/
theorem views_eq_nil (hn : fl.Numbered) (hf : fl.flights.length ≤ f) : fl.views f = [] := by
  unfold views seenOf
  rw [List.filterMap_eq_nil_iff]
  intro s hs
  refine if_neg fun hsf => ?_
  exact absurd (hn.seen s (List.mem_reverse.1 hs) f hsf) (Nat.not_lt.2 hf)

/-- A flight in hand is under way. -/
theorem Dispatched.heldAt_of_inHand (h : fl.Dispatched jobs first start slots taken)
    (hu : fl.Underway e jobs first) {j time : Nat} (hj : fl.inHand (first + j) = true)
    (htime : fl.now ≤ time) : heldAt time (fl.views (first + j)) = true := by
  obtain ⟨v, hv, hp⟩ := inHand_iff.1 hj
  obtain ⟨x, hx, rfl⟩ := lane?_eq_some.1 hv
  have hpending := ((hu.lanes _ _ hv).judged (Nat.le_add_right first j)).pending hp
  obtain ⟨n, rest, hviews⟩ := h.begun j x hx
  have hle : x.takenAt ≤ fl.now := h.past j _ (by rw [hviews]; exact List.mem_cons_self)
  unfold heldAt
  rw [Bool.and_eq_true, Bool.not_eq_true', List.any_eq_false]
  constructor
  · rw [hviews, List.head?_cons, Option.any_some, decide_eq_true_eq]
    omega
  · rintro ⟨t, n⟩ hmem hres
    rw [Bool.and_eq_true] at hres
    cases n with
    | completed r => exact hpending r (List.mem_map.2 ⟨_, hmem, rfl⟩)
    | _ => cases hres.2

/-- A flight that nobody has in hand is not under way any more. -/
theorem inHand_of_heldAt (hu : fl.Underway e jobs first) (hstop : ¬fl.Stopped) {time : Nat}
    (hf : first ≤ f) (hlt : f < fl.flights.length) (hpast : ∀ n ∈ fl.views f, n.1 ≤ time)
    (hheld : heldAt time (fl.views f) = true) : fl.inHand f = true := by
  have hv : fl.lane? f = some (fl.laneOf f fl.flights[f]) :=
    lane?_eq_some.2 ⟨_, List.getElem?_eq_getElem hlt, rfl⟩
  by_contra hno
  have haway : (fl.laneOf f fl.flights[f]).post = .away := by
    by_contra hp
    exact hno (inHand_iff.2 ⟨_, hv, hp⟩)
  obtain ⟨t, r, hmem⟩ := (hu.ledger.left f _ hf hv haway).resolve_left hstop
  have hle : t ≤ time := hpast _ hmem
  unfold heldAt at hheld
  rw [Bool.and_eq_true, Bool.not_eq_true', List.any_eq_false] at hheld
  exact hheld.2 _ hmem (by simp [Note.isResult, hle])

/-- Flights that were there before a move: what was under way before it still was, and what was
not does not get so. -/
theorem heldAmong_moves (hn : fl.Numbered) (hm : e.Moves fl fl') (n time : Nat)
    (hlt : time < fl.now) :
    heldAmong first n time fl'.views = heldAmong first n time fl.views := by
  refine heldAmong_congr fun j _ => ?_
  obtain ⟨new, hnew, htime⟩ := seenOf_moves hn hm (first + j)
  unfold views
  rw [hnew]
  refine heldAt_append_of_lt fun k hk => ?_
  rw [htime k hk]
  exact hlt

theorem Dispatched.heldAmong_le (h : fl.Dispatched jobs first start slots taken)
    (hn : fl.Numbered)
    (hm : e.Moves fl fl') {n : Nat} (hle : n ≤ taken) (time : Nat) :
    heldAmong first n time fl'.views ≤ heldAmong first n time fl.views := by
  refine Conveyor.heldAmong_le fun j hj hheld => ?_
  obtain ⟨new, hnew, -⟩ := seenOf_moves hn hm (first + j)
  have hlt : first + j < fl.flights.length := by
    rw [h.length]
    omega
  obtain ⟨k, rest, hviews⟩ := h.begun j _ (List.getElem?_eq_getElem hlt)
  unfold views at hheld ⊢
  rw [hnew] at hheld
  exact heldAt_of_append (by rw [show seenOf (first + j) fl.seen = _ from hviews]; simp) hheld

/-- What was seen of a flight begins as before. -/
theorem Dispatched.begun_moves (h : fl.Dispatched jobs first start slots taken)
    (hn : fl.Numbered)
    (hm : e.Moves fl fl') {k : Nat} {x y : Flight} (hx : fl.flights[first + k]? = some x)
    (hsame : x.Same y) : ∃ n rest, fl'.views (first + k) = (y.takenAt, n) :: rest := by
  obtain ⟨new, hnew, -⟩ := seenOf_moves hn hm (first + k)
  obtain ⟨n, rest, hviews⟩ := h.begun k x hx
  refine ⟨n, rest ++ new, ?_⟩
  unfold views at hviews ⊢
  rw [hnew, hviews, hsame.2.2]
  rfl

theorem Dispatched.past_moves (h : fl.Dispatched jobs first start slots taken) (hn : fl.Numbered)
    (hm : e.Moves fl fl') (k : Nat) : ∀ n ∈ fl'.views (first + k), n.1 ≤ fl'.now := by
  have hnow := now_le_moves hn hm
  obtain ⟨new, hnew, htime⟩ := seenOf_moves hn hm (first + k)
  intro n hmem
  unfold views at hmem
  rw [hnew] at hmem
  rcases List.mem_append.1 hmem with hmem | hmem
  · exact Nat.le_trans (h.past k n hmem) hnow
  · rw [htime n hmem]
    exact hnow

/-- Time passes only in a round before which nobody was called, and in which nothing is seen. -/
theorem quiet_of_lt (hn : fl.Numbered) (hm : e.Moves fl fl') (hlt : fl.now < fl'.now) :
    fl.pending = [] ∧ fl'.seen = fl.seen := by
  cases hm with
  | @turn t rest ready other =>
    have hA : { fl with ready := rest }.Assigned := assigned_of_same hn.assigned rfl rfl
    obtain ⟨ss, hss⟩ := tells_step e hA t
    have hnow : (e.step t { fl with ready := rest }).now = fl.now := hss.now
    omega
  | round ready next =>
    obtain ⟨-, hnow, hfl'⟩ := nextRound_eq_some next
    refine ⟨?_, by rw [hfl']⟩
    by_cases hlater : fl.later = []
    · simp [pending, ready, hlater]
    · rw [if_neg hlater] at hnow
      omega

/-- When time passes while jobs are queued, all slots are taken. -/
theorem Dispatched.full_of_round (h : fl.Dispatched jobs first start slots taken)
    (hu : fl.Underway e jobs first) (hstop : ¬fl.Stopped) (hm : e.Moves fl fl')
    (hqueue : fl.queue ≠ []) {time : Nat} (hle : fl.now ≤ time) (hlt : time < fl'.now) :
    slots ≤ heldAmong first taken time fl.views := by
  have hquiet := (quiet_of_lt hu.orderly.numbered hm (Nat.lt_of_le_of_lt hle hlt)).1
  have hold : ∀ f v, fl.lane? f = some v → f < first → v.post = .away :=
    fun f v hv hf => ((hu.lanes f v hv).old hf).1
  have hbusy := length_le_card_handled hu.orderly h.eager h.brisk hquiet hqueue hstop hold
    h.length
  have hheld : (fl.handled first taken).card ≤ heldAmong first taken time fl.views := by
    refine Finset.card_le_card fun j hj => ?_
    obtain ⟨hjn, hj⟩ := Finset.mem_filter.1 hj
    exact Finset.mem_filter.2 ⟨hjn, h.heldAt_of_inHand hu hj hle⟩
  have htaken : heldAmong first taken time fl.views ≤ taken := by
    have hcard := Finset.card_filter_le (Finset.range taken) fun j =>
      heldAt time (fl.views (first + j)) = true
    rwa [Finset.card_range] at hcard
  have hless : taken < jobs.length := by
    by_contra hge
    exact hqueue (by rw [h.queue]; exact List.drop_eq_nil_iff.2 (by omega))
  rw [h.eager.size] at hbusy
  omega

/-- A flight, the one of job number `k`, was taken neither too late nor too early. -/
structure Timely (jobs : List JobInstance) (first start slots k : Nat) (fl : Floor σ)
    (x : Flight) :
    Prop where
  job : jobs[k]? = some x.job
  begun : ∃ n rest, fl.views (first + k) = (x.takenAt, n) :: rest
  started : start ≤ x.takenAt
  full : ∀ u, start ≤ u → u < x.takenAt → slots ≤ heldAmong first k u fl.views
  free : heldAmong first k x.takenAt fl.views < slots

/-- A flight that was taken in time before a move was so after it. -/
theorem Dispatched.timely_moves (h : fl.Dispatched jobs first start slots taken)
    (hn : fl.Numbered)
    (hm : e.Moves fl fl') {k : Nat} (hk : k < taken) {y : Flight}
    (hy : fl'.flights[first + k]? = some y) : fl'.Timely jobs first start slots k y := by
  have hlt : first + k < fl.flights.length := by
    rw [h.length]
    omega
  have hx : fl.flights[first + k]? = some fl.flights[first + k] := List.getElem?_eq_getElem hlt
  obtain ⟨y', hy', hsame⟩ := keeps_moves hn hm _ _ hx
  rw [hy] at hy'
  obtain rfl := Option.some.inj hy'
  have hbefore := h.full k _ hx
  have hpast : fl.flights[first + k].takenAt ≤ fl.now := by
    obtain ⟨n, rest, hviews⟩ := h.begun k _ hx
    exact h.past k _ (by rw [hviews]; exact List.mem_cons_self)
  refine
    { job := by rw [hsame.1]; exact h.jobs k _ hx
      begun := h.begun_moves hn hm hx hsame
      started := by rw [hsame.2.2]; exact hbefore.1
      full := ?_
      free := ?_ }
  · -- What was under way before it was taken is long settled.
    intro u hstart hlt
    rw [hsame.2.2] at hlt
    rw [heldAmong_moves hn hm k u (Nat.lt_of_lt_of_le hlt hpast)]
    exact hbefore.2 u hstart hlt
  · rw [hsame.2.2]
    exact Nat.lt_of_le_of_lt (h.heldAmong_le hn hm (Nat.le_of_lt hk) _) (h.free k _ hx)

/-- As long as no job is taken and jobs are queued, all slots are taken. -/
theorem Dispatched.waiting_moves (h : fl.Dispatched jobs first start slots taken)
    (hu : fl.Underway e jobs first) (hm : e.Moves fl fl') (hstop : ¬fl.Stopped)
    (hqueue : fl.queue ≠ []) {u : Nat} (hstart : start ≤ u) (hlt : u < fl'.now) :
    slots ≤ heldAmong first taken u fl'.views := by
  have hn := hu.orderly.numbered
  by_cases hpassed : u < fl.now
  · rw [heldAmong_moves hn hm taken u hpassed]
    exact h.waiting hqueue u hstart hpassed
  · have hle : fl.now ≤ u := Nat.le_of_not_lt hpassed
    have hseen := (quiet_of_lt hn hm (Nat.lt_of_le_of_lt hle hlt)).2
    have hviews : fl'.views = fl.views := by
      funext f
      unfold views
      rw [hseen]
    rw [hviews]
    exact h.full_of_round hu hstop hm hqueue hle hlt

/-- When a job is taken, what is still under way is in the hands of the other workers. -/
theorem Dispatched.free_take (h : fl.Dispatched jobs first start slots taken)
    (hu : fl'.Underway e jobs first) (hn : fl.Numbered) (hm : e.Moves fl fl')
    (hstop : ¬fl'.Stopped)
    (length : fl'.flights.length = fl.flights.length + 1) (hnow : fl'.now = fl.now)
    (hhand : fl'.inHand (first + taken) = true) :
    heldAmong first taken fl.now fl'.views < slots := by
  have hheld : heldAmong first taken fl.now fl'.views ≤ (fl'.handled first taken).card := by
    refine Finset.card_le_card fun j hj => ?_
    obtain ⟨hjn, hheld⟩ := Finset.mem_filter.1 hj
    have hlt := Finset.mem_range.1 hjn
    refine Finset.mem_filter.2 ⟨hjn, ?_⟩
    refine inHand_of_heldAt hu hstop (Nat.le_add_right first j) ?_ ?_ hheld
    · rw [length, h.length]
      omega
    · rw [← hnow]
      exact h.past_moves hn hm j
  have hfewer := card_handled_lt hhand (Nat.le_refl (first + taken))
  rw [(h.eager.moves hn hm).size] at hfewer
  omega

/-- A job that is taken is taken in time. -/
theorem Dispatched.timely_take (h : fl.Dispatched jobs first start slots taken)
    (hu : fl.Underway e jobs first) (hm : e.Moves fl fl') (hstop : ¬fl'.Stopped)
    {i : JobInstance}
    {w : Nat} (queue : fl.queue = i :: fl'.queue)
    (length : fl'.flights.length = fl.flights.length + 1)
    (lane : fl'.lane? fl.flights.length = some (Lane.launched i w fl.around)) :
    fl'.Timely jobs first start slots taken (Flight.launch i w fl.now) := by
  have hn := hu.orderly.numbered
  have hnow : fl'.now = fl.now := congrArg Surroundings.now (around_of_lane lane).symm
  rw [h.length] at lane
  obtain ⟨x, -, hlane⟩ := lane?_eq_some.1 lane
  have hhand : fl'.inHand (first + taken) = true :=
    inHand_iff.2 ⟨_, lane, by simp [Lane.launched]⟩
  have hi : (jobs.drop taken)[0]? = some i := by
    rw [← h.queue, queue]
    rfl
  refine
    { job := by rwa [List.getElem?_drop, Nat.add_zero] at hi
      begun := ⟨_, [], congrArg Lane.seen hlane⟩
      started := h.started
      full := ?_
      free := h.free_take (hu.moves hm) hn hm hstop length hnow hhand }
  intro u hstart hlt
  rw [heldAmong_moves hn hm taken u hlt]
  exact h.waiting (by rw [queue]; simp) u hstart hlt

/-- Nothing was taken: the flights are those that were there before. -/
theorem Dispatched.keep (h : fl.Dispatched jobs first start slots taken)
    (hu : fl.Underway e jobs first) (hm : e.Moves fl fl') (hstop : ¬fl.Stopped)
    (queue : fl'.queue = fl.queue) (length : fl'.flights.length = fl.flights.length) :
    fl'.Dispatched jobs first start slots taken := by
  have hn := hu.orderly.numbered
  have htimely : ∀ k y, fl'.flights[first + k]? = some y →
      fl'.Timely jobs first start slots k y := by
    intro k y hy
    have hlt := (List.getElem?_eq_some_iff.1 hy).1
    rw [length, h.length] at hlt
    exact h.timely_moves hn hm (by omega) hy
  exact
    { eager := h.eager.moves hn hm
      brisk := h.brisk.moves hn hm
      started := Nat.le_trans h.started (now_le_moves hn hm)
      length := length.trans h.length
      most := h.most
      queue := queue.trans h.queue
      jobs := fun k y hy => (htimely k y hy).job
      begun := fun k y hy => (htimely k y hy).begun
      past := h.past_moves hn hm
      full := fun k y hy => ⟨(htimely k y hy).started, (htimely k y hy).full⟩
      free := fun k y hy => (htimely k y hy).free
      waiting := fun hqueue _ => h.waiting_moves hu hm hstop (queue ▸ hqueue) }

/-- A job was taken: a flight is one that was there before, or the new one. -/
theorem Dispatched.take (h : fl.Dispatched jobs first start slots taken)
    (hu : fl.Underway e jobs first) (hm : e.Moves fl fl') (hstop : ¬fl'.Stopped)
    {i : JobInstance}
    {w : Nat} (queue : fl.queue = i :: fl'.queue)
    (length : fl'.flights.length = fl.flights.length + 1)
    (lane : fl'.lane? fl.flights.length = some (Lane.launched i w fl.around)) :
    fl'.Dispatched jobs first start slots (taken + 1) := by
  have hn := hu.orderly.numbered
  have hnow : fl'.now = fl.now := congrArg Surroundings.now (around_of_lane lane).symm
  have hdrop : jobs.drop taken = i :: fl'.queue := h.queue ▸ queue
  have hnew := h.timely_take hu hm hstop queue length lane
  rw [h.length] at lane
  obtain ⟨x, hx, hlane⟩ := lane?_eq_some.1 lane
  obtain rfl : x = Flight.launch i w fl.now := congrArg Lane.flight hlane
  -- Jobs taken before keep their times; only the new one needs the argument of `timely_take`.
  have htimely : ∀ k y, fl'.flights[first + k]? = some y →
      fl'.Timely jobs first start slots k y := by
    intro k y hy
    have hlt := (List.getElem?_eq_some_iff.1 hy).1
    rw [length, h.length] at hlt
    by_cases hk : k = taken
    · subst hk
      rw [hx] at hy
      exact Option.some.inj hy ▸ hnew
    · exact h.timely_moves hn hm (by omega) hy
  refine
    { eager := h.eager.moves hn hm
      brisk := h.brisk.moves hn hm
      started := Nat.le_trans h.started (now_le_moves hn hm)
      length := by rw [length, h.length, Nat.add_assoc]
      most := (List.getElem?_eq_some_iff.1 hnew.job).1
      queue := by rw [← List.tail_drop, hdrop, List.tail_cons]
      jobs := fun k y hy => (htimely k y hy).job
      begun := fun k y hy => (htimely k y hy).begun
      past := h.past_moves hn hm
      full := fun k y hy => ⟨(htimely k y hy).started, (htimely k y hy).full⟩
      free := fun k y hy => (htimely k y hy).free
      waiting := ?_ }
  -- All slots were full while this job waited, and they are still among those counted now.
  intro _ u hstart hlt
  rw [hnow] at hlt
  have hbefore := h.waiting (by rw [queue]; simp) u hstart hlt
  rw [← heldAmong_moves hn hm taken u hlt] at hbefore
  exact Nat.le_trans hbefore (heldAmong_mono (Nat.le_succ taken))

/-- **What holds at a moment holds at the next**, as long as the run is not canceled and no
worker is stopped. -/
theorem Dispatched.moves (h : fl.Dispatched jobs first start slots taken)
    (hu : fl.Underway e jobs first) (hm : e.Moves fl fl') (hrun : fl'.around.canceled = false)
    (hstop : ¬fl'.Stopped) : ∃ taken', fl'.Dispatched jobs first start slots taken' := by
  have hn := hu.orderly.numbered
  have hstop' : ¬fl.Stopped := fun hs => hstop (hs.moves hn hm)
  cases deals_moves hu.orderly hm with
  | keep queue length => exact ⟨taken, h.keep hu hm hstop' queue length⟩
  | take queue running length lane => exact ⟨taken + 1, h.take hu hm hstop queue length lane⟩
  | drain canceled queue length refused =>
    rw [canceled_moves hn hm canceled] at hrun
    cases hrun

/-- Before any job is taken. -/
theorem Open.dispatched_staff (h : fl.Open e) (hk : fl.receiver.Prompt)
    (jobs : List JobInstance) :
    (e.staff jobs fl).Dispatched jobs fl.flights.length fl.now e.maxConcurrency.toNat 0 := by
  have hnone : ∀ (k : Nat) (x : Flight), (e.staff jobs fl).flights[fl.flights.length + k]? ≠
      some x := by
    intro k x hx
    have hlt : fl.flights.length + k < fl.flights.length := (List.getElem?_eq_some_iff.1 hx).1
    omega
  refine
    { eager := eager_staff e jobs fl
      brisk := brisk_staff e jobs hk
      started := Nat.le_refl _
      length := rfl
      most := Nat.zero_le _
      queue := rfl
      jobs := fun k x hx => absurd hx (hnone k x)
      begun := fun k x hx => absurd hx (hnone k x)
      past := fun k n hn => ?_
      full := fun k x hx => absurd hx (hnone k x)
      free := fun k x hx => absurd hx (hnone k x)
      waiting := fun _ u hstart hlt => absurd hstart (Nat.not_le.2 hlt) }
  obtain ⟨s, hs, heq⟩ := List.mem_filterMap.1 hn
  rw [(h.seen s (List.mem_reverse.1 hs)).1] at heq
  cases heq

/-- **Jobs are taken in order and as early as possible up to every moment of a schedule**, as
long as the run is not canceled and no worker is stopped, if the receiver of results takes no
time. -/
theorem Open.dispatched_leads (h : fl.Open e) (hk : fl.receiver.Prompt)
    (hl : e.Leads (e.staff jobs fl) m)
    (hrun : m.around.canceled = false) (hstop : ¬m.Stopped) :
    ∃ taken, m.Dispatched jobs fl.flights.length fl.now e.maxConcurrency.toNat taken := by
  have hkept := hl.keeps (P := fun n => n.Underway e jobs fl.flights.length ∧
    (n.around.canceled = false → ¬n.Stopped →
      ∃ taken, n.Dispatched jobs fl.flights.length fl.now e.maxConcurrency.toNat taken)) ?_
    ⟨h.underway_staff jobs, fun _ _ => ⟨0, h.dispatched_staff hk jobs⟩⟩
  · exact hkept.2 hrun hstop
  · rintro n n' ⟨hu, hn⟩ hm
    refine ⟨hu.moves hm, fun hrun' hstop' => ?_⟩
    have hrun : n.around.canceled = false := by
      by_contra hc
      rw [Bool.not_eq_false] at hc
      rw [canceled_moves hu.orderly.numbered hm hc] at hrun'
      cases hrun'
    obtain ⟨taken, hd⟩ := hn hrun fun hs => hstop' (hs.moves hu.orderly.numbered hm)
    exact hd.moves hu hm hrun' hstop'

/-- What was under way before a moment, as far as it was seen. -/
theorem Dispatched.begunIn_iff (h : fl.Dispatched jobs first start slots taken)
    (hn : fl.Numbered)
    {ss : List Sighting} (hss : ∀ s ∈ ss, ∀ f, s.flight = some f → f < fl.flights.length)
    (k : Nat) :
    begunIn (fl.sightings ++ ss) (first + k) = true ↔ k < taken := by
  have hlength := h.length
  unfold begunIn
  rw [List.any_eq_true]
  constructor
  · rintro ⟨s, hs, hf⟩
    have hf' : s.flight = some (first + k) := of_decide_eq_true hf
    have hlt : first + k < fl.flights.length := by
      rcases List.mem_append.1 hs with hs | hs
      · exact hn.seen s (List.mem_reverse.1 hs) _ hf'
      · exact hss s hs _ hf'
    omega
  · intro hk
    -- A job that was taken is seen at once, as the first of what is seen of it.
    have hlt : first + k < fl.flights.length := by omega
    obtain ⟨n, rest, hviews⟩ := h.begun k _ (List.getElem?_eq_getElem hlt)
    have hmem : (fl.flights[first + k].takenAt, n) ∈ seenOf (first + k) fl.seen := by
      rw [show seenOf (first + k) fl.seen = _ from hviews]
      exact List.mem_cons_self
    obtain ⟨s, hs, heq⟩ := List.mem_filterMap.1 hmem
    refine ⟨s, List.mem_append_left _ hs, decide_eq_true ?_⟩
    by_contra hne
    rw [if_neg hne] at heq
    cases heq

/-- What is under way at a moment, and a little later, is in hand. -/
theorem underway_subset_handled (hu : fl.Underway e jobs first) (hstop : ¬fl.Stopped)
    {ss : List Sighting} (hss : ∀ s ∈ ss, ∀ f, s.flight = some f → f < fl.flights.length)
    (n : Nat) :
    underway first n (fl.sightings ++ ss) ⊆ fl.handled first n := by
  intro j hj
  obtain ⟨hjn, hbegun, hres⟩ := Finset.mem_filter.1 hj
  refine Finset.mem_filter.2 ⟨hjn, ?_⟩
  obtain ⟨s, hs, hf⟩ := List.any_eq_true.1 hbegun
  have hf' : s.flight = some (first + j) := of_decide_eq_true hf
  have hlt : first + j < fl.flights.length := by
    rcases List.mem_append.1 hs with hs | hs
    · exact hu.orderly.numbered.seen s (List.mem_reverse.1 hs) _ hf'
    · exact hss s hs _ hf'
  have hv : fl.lane? (first + j) = some (fl.laneOf (first + j) fl.flights[first + j]) :=
    lane?_eq_some.2 ⟨_, List.getElem?_eq_getElem hlt, rfl⟩
  -- A worker leaves a job only with its result, and none was seen.
  refine inHand_iff.2 ⟨_, hv, fun haway => ?_⟩
  obtain ⟨t, r, hmem⟩ := (hu.ledger.left _ _ (Nat.le_add_right first j) hv haway).resolve_left
    hstop
  obtain ⟨s', hs', heq⟩ := List.mem_filterMap.1 hmem
  split at heq
  · rename_i hf
    have hno := hres s' (List.mem_append_left _ hs') hf
    have hnote : s'.note = .completed r := congrArg Prod.snd (Option.some.inj heq)
    rw [hnote] at hno
    cases hno
  · cases heq

/-- When a flight was taken, as its report has it. -/
theorem Dispatched.startOf_eq (h : fl.Dispatched jobs first start slots taken) {k : Nat}
    {x : Flight}
    (hx : fl.flights[first + k]? = some x) :
    (fl.reportOf jobs).startOf (first + k) = some x.takenAt := by
  obtain ⟨n, rest, hbegun⟩ := h.begun k x hx
  unfold ScheduleReport.startOf
  rw [seenOf_reportOf, show seenOf (first + k) fl.seen = _ from hbegun]
  rfl

/-- Only a flight that was taken has a time at which it was. -/
theorem Dispatched.exists_of_startOf (h : fl.Dispatched jobs first start slots taken)
    (hn : fl.Numbered)
    {k t : Nat} (hstart : (fl.reportOf jobs).startOf (first + k) = some t) :
    ∃ x, fl.flights[first + k]? = some x ∧ x.takenAt = t := by
  have hlt : first + k < fl.flights.length := by
    refine Nat.lt_of_not_le fun hle => ?_
    unfold ScheduleReport.startOf at hstart
    rw [seenOf_reportOf, show seenOf (first + k) fl.seen = [] from views_eq_nil hn hle] at hstart
    cases hstart
  have hx := List.getElem?_eq_getElem hlt
  rw [h.startOf_eq hx] at hstart
  exact ⟨_, hx, Option.some.inj hstart⟩

/-- **A point of a schedule** is one at which no flight was seen yet, or comes a little after a
moment: no flight that is seen in between was taken in between. -/
theorem Open.moment_or_none (ho : fl.Open e) (hk : fl.receiver.Prompt)
    (hl : e.Leads (e.staff jobs fl) m)
    (hrun : m.around.canceled = false) (hstop : ¬m.Stopped) {past : List Sighting}
    (hpast : past <+: m.sightings) :
    (∀ s ∈ past, s.flight = none) ∨ ∃ (n : Floor σ) (ss : List Sighting) (taken : Nat),
      n.Underway e jobs fl.flights.length ∧ ¬n.Stopped ∧
      n.Dispatched jobs fl.flights.length fl.now e.maxConcurrency.toNat taken ∧
      past = n.sightings ++ ss ∧ ∀ s ∈ ss, ∀ f, s.flight = some f → f < n.flights.length := by
  rcases exists_moment (ho.orderly_staff jobs) hl hpast with hp | ⟨n, ss, hln, hnm, rfl, hss⟩
  · exact .inl fun s hs => (ho.seen s (List.mem_reverse.1 (hp.mem hs))).1
  · have hun := (ho.underway_staff jobs).leads hln
    have hrunn : n.around.canceled = false := by
      by_contra hc
      rw [Bool.not_eq_false] at hc
      rw [canceled_leads hun.orderly hnm hc] at hrun
      cases hrun
    have hstopn : ¬n.Stopped := fun hs => hstop (hs.leads hun.orderly hnm)
    obtain ⟨taken, hd⟩ := ho.dispatched_leads hk hln hrunn hstopn
    exact .inr ⟨n, ss, taken, hun, hstopn, hd, rfl, hss⟩

theorem begunIn_eq_false {past : List Sighting} (hnone : ∀ s ∈ past, s.flight = none) (f : Nat) :
    begunIn past f = false := by
  refine List.any_eq_false.2 fun s hs => ?_
  simp [hnone s hs]

theorem underway_eq_empty {past : List Sighting} (hnone : ∀ s ∈ past, s.flight = none)
    (first n : Nat) :
    underway first n past = ∅ := by
  refine Finset.filter_eq_empty_iff.2 fun j _ hj => ?_
  rw [begunIn_eq_false hnone] at hj
  cases hj.1

/-- A little after a moment, at most as many jobs are under way as there are slots. -/
theorem Dispatched.card_underway_le (h : fl.Dispatched jobs first start slots taken)
    (hu : fl.Underway e jobs first) (hstop : ¬fl.Stopped) {ss : List Sighting}
    (hss : ∀ s ∈ ss, ∀ f, s.flight = some f → f < fl.flights.length) :
    (underway first jobs.length (fl.sightings ++ ss)).card ≤ slots := by
  have hsub := Finset.card_le_card (underway_subset_handled hu hstop hss jobs.length)
  have hcard : (fl.handled first jobs.length).card ≤ fl.workers.length :=
    card_handled_le first jobs.length
  rw [h.eager.size] at hcard
  exact Nat.le_trans hsub (Nat.le_trans hcard (Nat.min_le_left _ _))

/-- A job that has no start is still queued, and so are those after it. -/
theorem Dispatched.le_of_startOf (h : fl.Dispatched jobs first start slots taken) {k : Nat}
    (hnone : (fl.reportOf jobs).startOf (first + k) = none) : taken ≤ k := by
  by_contra hgt
  have hlt : first + k < fl.flights.length := by
    rw [h.length]
    omega
  rw [h.startOf_eq (List.getElem?_eq_getElem hlt)] at hnone
  cases hnone

end Floor

namespace Engine

open Floor

variable {e : Engine} {fl fl' m : Floor σ} {jobs : List JobInstance}

/-- **A schedule is greedy up to every moment**, as long as the run is not canceled and no worker
is stopped. -/
theorem greedy_reportOf (ho : fl.Open e) (hprompt : fl.receiver.Prompt)
    (hl : e.Leads (e.staff jobs fl) m)
    (hrun : m.around.canceled = false) (hstop : ¬m.Stopped) :
    (m.reportOf jobs).Greedy fl.flights.length fl.now e.maxConcurrency.toNat := by
  have hviews : (m.reportOf jobs).seenOf = m.views := funext fun f => seenOf_reportOf jobs m f
  obtain ⟨taken, hd⟩ := ho.dispatched_leads hprompt hl hrun hstop
  have hu := (ho.underway_staff jobs).leads hl
  refine
    { ids := fun k hk => ?_
      inOrder := fun past hpast => ?_
      bounded := fun past hpast => ?_
      least := fun k t hstart => ?_
      waiting := fun k hk hnone u hstart hlt => ?_ }
  · have hlt : fl.flights.length + k < m.flights.length := by
      simpa [reportOf] using hk
    show (m.flights.map fun x => x.job.id)[fl.flights.length + k]? =
      (jobs[k]?).map JobInstance.id
    rw [List.getElem?_map, hd.jobs k _ (List.getElem?_eq_getElem hlt),
      List.getElem?_eq_getElem hlt]
    rfl
  · rcases ho.moment_or_none hprompt hl hrun hstop hpast with
      hnone | ⟨n, ss, taken, hun, -, hd, rfl, hss⟩
    · refine ⟨0, Nat.zero_le _, fun k => ?_⟩
      rw [begunIn_eq_false hnone]
      simp
    · exact ⟨taken, hd.most, hd.begunIn_iff hun.orderly.numbered hss⟩
  · show (underway fl.flights.length jobs.length past).card ≤ _
    rcases ho.moment_or_none hprompt hl hrun hstop hpast with
      hnone | ⟨n, ss, taken, hun, hstopn, hd, rfl, hss⟩
    · rw [underway_eq_empty hnone]
      exact Nat.zero_le _
    · exact hd.card_underway_le hun hstopn hss
  · obtain ⟨x, hx, rfl⟩ := hd.exists_of_startOf hu.orderly.numbered hstart
    unfold ScheduleReport.held
    rw [hviews]
    refine ⟨⟨(hd.full k x hx).1, hd.free k x hx⟩, ?_⟩
    -- Before it was taken, all slots were.
    rintro u ⟨hstart, hfew⟩
    by_contra hlt
    exact absurd ((hd.full k x hx).2 u hstart (Nat.lt_of_not_le hlt)) (Nat.not_le.2 hfew)
  · have hle := hd.le_of_startOf hnone
    have hqueue : m.queue ≠ [] := by
      rw [hd.queue]
      intro hnil
      have hlen := List.drop_eq_nil_iff.1 hnil
      have hk' : k < jobs.length := hk
      omega
    unfold ScheduleReport.held
    rw [hviews]
    exact Nat.le_trans (hd.waiting hqueue u hstart hlt) (heldAmong_mono hle)

/-- **Greedy dispatch in order**: as long as the run is not canceled and no worker is stopped,
jobs are taken in order, never more than there are slots, and each as soon as fewer of those
before it are under way, whatever comes of them and whether or not the receiver of results fails,
if it takes no time. When the schedule has finished, every job was taken, once. -/
theorem greedy_schedule (ho : e.Opens fl) (hprompt : fl.receiver.Prompt)
    (jobs : List JobInstance) :
    (∀ m, e.Leads (e.staff jobs fl) m → m.around.canceled = false → ¬m.Stopped →
      (m.reportOf jobs).Greedy fl.flights.length fl.now e.maxConcurrency.toNat) ∧
    ∀ s fl', e.reportSchedule jobs fl = some (s, fl') → s.ending = .finished →
      fl'.around.canceled = false →
      s.Greedy fl.flights.length fl.now e.maxConcurrency.toNat ∧
        s.ids.drop fl.flights.length = jobs.map JobInstance.id ∧
        ∀ k < jobs.length, ∃ t, s.startOf (fl.flights.length + k) = some t := by
  refine ⟨fun m hl hrun hstop => greedy_reportOf ho.isOpen hprompt hl hrun hstop, ?_⟩
  intro s fl' hreport hfinished hrun
  obtain ⟨m, hl, rfl, -, haround, hend⟩ := ho.isOpen.exists_end hreport
  obtain ⟨hstop, -, hqueue⟩ := hend hfinished
  rw [haround] at hrun
  obtain ⟨taken, hd⟩ := ho.isOpen.dispatched_leads hprompt hl hrun hstop
  -- At the end the queue is empty, so that all jobs were taken.
  have hall : taken = jobs.length := by
    have hdrop := List.drop_eq_nil_iff.1 (hd.queue.symm.trans hqueue)
    have hmost := hd.most
    omega
  have hgreedy := greedy_reportOf ho.isOpen hprompt hl hrun hstop
  have hlength : m.flights.length = fl.flights.length + jobs.length := by rw [hd.length, hall]
  refine ⟨hgreedy, ?_, fun k hk => ?_⟩
  · refine List.ext_getElem? fun k => ?_
    rw [List.getElem?_drop, List.getElem?_map]
    by_cases hk : k < jobs.length
    · exact hgreedy.ids k (by simp [reportOf]; omega)
    · rw [List.getElem?_eq_none (by simp [reportOf]; omega), List.getElem?_eq_none (by omega)]
      rfl
  · have hlt : fl.flights.length + k < m.flights.length := by omega
    exact ⟨_, hd.startOf_eq (List.getElem?_eq_getElem hlt)⟩

/-- A plan by which units with the image `bad` cannot be had. -/
def choosyPlan : ProvisionPlan :=
  { ProvisionPlan.smooth with fail := [("bad", "no such image")] }

/-- Four jobs of which the second fails, and the third gets no unit. -/
def queuedJobs : List JobInstance :=
  [.rehearsal "a" "" (.ofInt 60) ["sleep 10"], .rehearsal "b" "" (.ofInt 60)
      ["sleep 30; exit 1"],
   .rehearsal "c" "bad" (.ofInt 60) ["exit 0"], .rehearsal "d" "" (.ofInt 60) ["sleep 30"]]

/-- An empty floor with a receiver that fails. -/
def brokenFloor : Floor Unit := .telling brokenReceiver

/-- With two slots, the third job is taken as soon as the first is over, and the fourth at once
after it, though the receiver fails each time. -/
theorem greedy_schedule_twoSlots :
    ∃ s fl', (rehearsal choosyPlan 2).reportSchedule queuedJobs brokenFloor = some (s, fl') ∧
      s.ending = .finished ∧ fl'.around.canceled = false ∧
      (List.range 4).map s.startOf = [some 0, some 0, some 10000000, some 10000000] ∧
      ⟨10000000, .error, "Completion callback failed for job a: sink down"⟩ ∈ s.log ∧
      s.Greedy 0 0 2 := by
  have hrun : ((rehearsal choosyPlan 2).reportIn 80 queuedJobs brokenFloor).map
      (fun r => (r.1.ending, r.2.around.canceled, (List.range 4).map r.1.startOf,
        decide (⟨10000000, .error, "Completion callback failed for job a: sink down"⟩ ∈
          r.1.log))) =
      some (.finished, false, [some 0, some 0, some 10000000, some 10000000], true) := by
    decide +kernel
  obtain ⟨⟨s, fl'⟩, hreport, hseen⟩ := Option.map_eq_some_iff.1 hrun
  simp only [Prod.mk.injEq] at hseen
  obtain ⟨hfinished, hcanceled, hstarts, herrors⟩ := hseen
  have hschedule := reportSchedule_of_reportIn rfl hreport
  have hopens : (rehearsal choosyPlan 2).Opens brokenFloor := opens_telling _ brokenReceiver
  have hprompt : brokenFloor.receiver.Prompt := fun _ => .failed _
  exact ⟨s, fl', hschedule, hfinished, hcanceled, hstarts, of_decide_eq_true herrors,
    ((greedy_schedule hopens hprompt queuedJobs).2 s fl' hschedule hfinished hcanceled).1⟩

end Engine

end Conveyor
