import Conveyor.Proofs.Schedule.Accounts
import Conveyor.Proofs.Schedule.Moments

/-!
# Which jobs are in flight

Jobs are taken in order. So the flights of a schedule are those of its first jobs, and the other
jobs are queued or were turned away, also in a run that is canceled. A result belongs to the
flight of its job, or was seen when the job was turned away.

- `Lane.Begun`: the first that is seen of a flight is that it is taken.
- `Floor.Dealt`: the flights are those of the first so many jobs.
- `Floor.Open.dealt_leads`: **so it is at every moment of a schedule**.
- `Floor.Dealt.of_flown`, `Floor.Dealt.of_turnedAway`: whose result it is that was seen.
- `Floor.Dealt.exists_resultFor`, `Floor.Dealt.resultFor`: whose result is kept for a job.
-/

namespace Conveyor

variable {σ : Type}

namespace Lane

variable {e : Engine} {v v' : Lane}

/-- The first that is seen of a flight is that it is taken. -/
def Begun (v : Lane) : Prop := ∃ n rest, v.seen = (v.flight.takenAt, n) :: rest

theorem Begun.passes (h : v.Begun) (hidle : v.post = .away → v.call = .idle)
    (hp : v.Passes e v') :
    v'.Begun := by
  obtain ⟨n, rest, hseen⟩ := h
  obtain ⟨new, hnew⟩ := hp.seen
  refine ⟨n, rest ++ new, ?_⟩
  rw [← hnew, hseen, (hp.same hidle).2.2]
  rfl

theorem begun_launched (i : JobInstance) (w : Nat) (s : Surroundings) : (launched i w s).Begun :=
  ⟨_, [], rfl⟩

end Lane

/-- What is left of a list after its first entries, by place. -/
theorem mem_drop_iff {α : Type} {l : List α} {n : Nat} {a : α} :
    a ∈ l.drop n ↔ ∃ k, n ≤ k ∧ l[k]? = some a := by
  rw [List.mem_iff_getElem?]
  constructor
  · rintro ⟨j, hj⟩
    rw [List.getElem?_drop] at hj
    exact ⟨n + j, Nat.le_add_right n j, hj⟩
  · rintro ⟨k, hn, hk⟩
    refine ⟨k - n, ?_⟩
    rw [List.getElem?_drop, Nat.add_sub_cancel' hn, hk]

/-- Jobs with different ids are at different places. -/
theorem index_unique {jobs : List JobInstance} (hids : (jobs.map JobInstance.id).Nodup)
    {j k : Nat}
    {i i' : JobInstance} (hi : jobs[k]? = some i) (hi' : jobs[j]? = some i') (h : i'.id = i.id) :
    j = k := by
  have hk : (jobs.map JobInstance.id)[k]? = some i.id := by rw [List.getElem?_map, hi]; rfl
  have hj : (jobs.map JobInstance.id)[j]? = some i.id := by rw [List.getElem?_map, hi', ← h]; rfl
  have hlt := (List.getElem?_eq_some_iff.1 hj).1
  exact (List.getElem?_inj hlt hids).1 (hj.trans hk.symm)

namespace Floor

/-- The flights of a schedule, which start with a number, are those of the first so many jobs;
the others are queued, or were turned away because the run is canceled. -/
structure Dealt (e : Engine) (jobs : List JobInstance) (first taken : Nat) (fl : Floor σ) :
    Prop where
  length : fl.flights.length = first + taken
  flights : ∀ k x, fl.flights[first + k]? = some x → jobs[k]? = some x.job
  begun : ∀ f v, first ≤ f → fl.lane? f = some v → v.Begun
  queue : ∃ gone, jobs.drop taken = gone ++ fl.queue ∧ (gone ≠ [] → fl.around.canceled = true) ∧
    ∀ i ∈ gone, ∃ time, e.refusal i time ∈ fl.seen
  refused : ∀ s ∈ fl.seen, s.flight = none → ∀ r, s.note = .completed r →
    fl.around.canceled = true ∧ ∃ i ∈ jobs.drop taken, r = e.resultAt i none s.time .canceled []

variable {e : Engine} {fl fl' m : Floor σ} {jobs : List JobInstance} {first taken : Nat}

/-- Flights that were there before are those of the same jobs. -/
theorem Dealt.flights_moves (h : fl.Dealt e jobs first taken) (hn : fl.Numbered)
    (hm : e.Moves fl fl')
    {k : Nat} {y : Flight} (hk : k < taken) (hy : fl'.flights[first + k]? = some y) :
    jobs[k]? = some y.job := by
  have hlt : first + k < fl.flights.length := by
    rw [h.length]
    omega
  obtain ⟨y', hy', hsame⟩ := keeps_moves hn hm _ _ (List.getElem?_eq_getElem hlt)
  rw [hy] at hy'
  obtain rfl := Option.some.inj hy'
  rw [hsame.1]
  exact h.flights k _ (List.getElem?_eq_getElem hlt)

/-- What is still queued is not taken yet. -/
theorem Dealt.mem_drop (h : fl.Dealt e jobs first taken) {i : JobInstance} (hi : i ∈ fl.queue) :
    i ∈ jobs.drop taken := by
  obtain ⟨gone, hdrop, -⟩ := h.queue
  rw [hdrop]
  exact List.mem_append_right _ hi

/-- The first that is seen of a flight stays the first. -/
theorem Dealt.begun_moves (h : fl.Dealt e jobs first taken) (hu : fl.Underway e jobs first)
    (hm : e.Moves fl fl') {f : Nat} {v' : Lane} (hf : first ≤ f) (hv' : fl'.lane? f = some v') :
    v'.Begun := by
  rcases lane?_moves_back hu.orderly hm hv' with ⟨v, hv, hp⟩ | ⟨i, w, -, -, -, rfl⟩
  · obtain ⟨past, -, hsound⟩ := (hu.lanes f v hv).sound
    exact (h.begun f v hf hv).passes hsound.idle hp
  · exact Lane.begun_launched i w _

/-- Who was turned away, or is turned away now, was queued. -/
theorem Dealt.refused_moves (h : fl.Dealt e jobs first taken) (hn : fl.Numbered)
    (hm : e.Moves fl fl')
    {s : Sighting} (hs : s ∈ fl'.seen) (hflight : s.flight = none) {r : JobResult}
    (hr : s.note = .completed r) : fl.around.canceled = true ∧
      ∃ i ∈ jobs.drop taken, r = e.resultAt i none s.time .canceled [] := by
  obtain ⟨ss, hseen, -, htime, hrefused⟩ := moves_tells hn hm
  rw [hseen] at hs
  rcases List.mem_append.1 hs with hs | hs
  · have hnew := List.mem_reverse.1 hs
    obtain ⟨hc, i, hi, hres⟩ := hrefused s hnew hflight r hr
    rw [htime s hnew]
    exact ⟨hc, i, h.mem_drop hi, hres⟩
  · exact h.refused s hs hflight r hr

/-- The flights after a job was taken: those that were there before, and its own. -/
theorem Dealt.flights_take (h : fl.Dealt e jobs first taken) (hn : fl.Numbered)
    (hm : e.Moves fl fl')
    {i : JobInstance} {w : Nat} (hi : jobs[taken]? = some i)
    (length : fl'.flights.length = fl.flights.length + 1)
    (lane : fl'.lane? fl.flights.length = some (Lane.launched i w fl.around)) {k : Nat}
    {y : Flight}
    (hy : fl'.flights[first + k]? = some y) : jobs[k]? = some y.job := by
  have hlt := (List.getElem?_eq_some_iff.1 hy).1
  rw [length, h.length] at hlt
  by_cases hk : k = taken
  · subst hk
    rw [h.length] at lane
    obtain ⟨x, hx, hlane⟩ := lane?_eq_some.1 lane
    rw [hy] at hx
    obtain rfl := Option.some.inj hx
    rw [hi, show y = Flight.launch i w fl.now from congrArg Lane.flight hlane]
    rfl
  · exact h.flights_moves hn hm (by omega) hy

/-- **Moves keep the order of the jobs.** -/
theorem Dealt.moves (h : fl.Dealt e jobs first taken) (hu : fl.Underway e jobs first)
    (hm : e.Moves fl fl') : ∃ taken', fl'.Dealt e jobs first taken' := by
  have hn := hu.orderly.numbered
  have hbegun : ∀ f v, first ≤ f → fl'.lane? f = some v → v.Begun :=
    fun f v hf hv => h.begun_moves hu hm hf hv
  have hkept : ∀ i, (∃ time, e.refusal i time ∈ fl.seen) → ∃ time, e.refusal i time ∈
      fl'.seen := by
    rintro i ⟨time, hmem⟩
    exact ⟨time, mem_seen_moves hn hm hmem⟩
  have hold : fl'.flights.length = fl.flights.length → ∀ k y, fl'.flights[first + k]? = some y →
      jobs[k]? = some y.job := by
    intro hlength k y hy
    have hlt := (List.getElem?_eq_some_iff.1 hy).1
    rw [hlength, h.length] at hlt
    exact h.flights_moves hn hm (by omega) hy
  cases deals_moves hu.orderly hm with
  | keep queue length =>
    refine ⟨taken, length.trans h.length, hold length, hbegun, ?_, fun s hs hf r hr => ?_⟩
    · obtain ⟨gone, hdrop, hc, hgone⟩ := h.queue
      rw [queue]
      exact ⟨gone, hdrop, fun hne => canceled_moves hn hm (hc hne), fun i hi =>
        hkept i (hgone i hi)⟩
    · obtain ⟨hc, hrest⟩ := h.refused_moves hn hm hs hf hr
      exact ⟨canceled_moves hn hm hc, hrest⟩
  | @take i w queue running length lane =>
    have hdrop : jobs.drop taken = i :: fl'.queue := by
      obtain ⟨gone, hdrop, hc, -⟩ := h.queue
      have hnone : gone = [] := by
        by_contra hne
        rw [hc hne] at running
        cases running
      rw [hdrop, hnone, queue]
      rfl
    have hi : jobs[taken]? = some i := by
      have h0 : (jobs.drop taken)[0]? = some i := by rw [hdrop]; rfl
      rwa [List.getElem?_drop, Nat.add_zero] at h0
    refine ⟨taken + 1, ?_, fun k y => h.flights_take hn hm hi length lane, hbegun,
      ⟨[], ?_, fun hne => absurd rfl hne, fun _ hj => by cases hj⟩, fun s hs hf r hr => ?_⟩
    · rw [length, h.length, Nat.add_assoc]
    · rw [← List.tail_drop, hdrop]
      rfl
    · -- Nobody is turned away in a run that is not canceled.
      rw [(h.refused_moves hn hm hs hf hr).1] at running
      cases running
  | @drain gone' canceled queue length refused =>
    obtain ⟨gone, hdrop, -, hgone⟩ := h.queue
    refine ⟨taken, length.trans h.length, hold length, hbegun,
      ⟨gone ++ gone', ?_, fun _ => canceled_moves hn hm canceled, fun i hi => ?_⟩,
      fun s hs hf r hr => ⟨canceled_moves hn hm canceled, (h.refused_moves hn hm hs hf hr).2⟩⟩
    · rw [hdrop, queue, List.append_assoc]
    · rcases List.mem_append.1 hi with hi | hi
      · exact hkept i (hgone i hi)
      · exact ⟨fl.now, refused i hi⟩

theorem Open.dealt_staff (h : fl.Open e) (jobs : List JobInstance) :
    (e.staff jobs fl).Dealt e jobs fl.flights.length 0 := by
  refine ⟨rfl, fun k x hx => ?_, fun f v hf hv => ?_, ⟨[], rfl, ?_⟩, fun s hs _ r hr => ?_⟩
  · have hlt : fl.flights.length + k < fl.flights.length := (List.getElem?_eq_some_iff.1 hx).1
    omega
  · have hlt : f < (e.staff jobs fl).flights.length := length_of_lane hv
    exact absurd hlt (Nat.not_lt.2 hf)
  · simp
  · have hout := (h.seen s hs).2
    rw [hr] at hout
    cases hout

/-- **At every moment of a schedule, the flights are those of the first so many jobs.** -/
theorem Open.dealt_leads (h : fl.Open e) (hl : e.Leads (e.staff jobs fl) m) :
    ∃ taken, m.Dealt e jobs fl.flights.length taken := by
  have hrun := hl.keeps
    (P := fun m => m.Underway e jobs fl.flights.length ∧
      ∃ taken, m.Dealt e jobs fl.flights.length taken)
    ?_ ⟨h.underway_staff jobs, 0, h.dealt_staff jobs⟩
  · exact hrun.2
  · rintro m m' ⟨hu, taken, hd⟩ hm
    exact ⟨hu.moves hm, hd.moves hu hm⟩

/-! ## Results of jobs -/

/-- The flight of the job at a place. -/
theorem Dealt.exists_lane (h : m.Dealt e jobs first taken) {k : Nat} {i : JobInstance}
    (hi : jobs[k]? = some i) (hk : k < taken) :
    ∃ v, m.lane? (first + k) = some v ∧ v.flight.job = i := by
  have hlt : first + k < m.flights.length := by
    rw [h.length]
    omega
  have hx := List.getElem?_eq_getElem hlt
  have hjob := h.flights k _ hx
  rw [hi] at hjob
  exact ⟨_, lane?_eq_some.2 ⟨_, hx, rfl⟩, (Option.some.inj hjob).symm⟩

/-- The job of a flight is the one at its place. -/
theorem Dealt.job_of_lane (h : m.Dealt e jobs first taken) {k : Nat} {v : Lane}
    (hv : m.lane? (first + k) = some v) : k < taken ∧ jobs[k]? = some v.flight.job := by
  have hlt := length_of_lane hv
  rw [h.length] at hlt
  obtain ⟨x, hx, rfl⟩ := lane?_eq_some.1 hv
  exact ⟨by omega, h.flights k x hx⟩

/-- A result that was seen of a flight belongs to the job of the flight. -/
theorem Underway.jobId_of_completed (h : m.Underway e jobs first) {f t : Nat} {v : Lane}
    {r : JobResult} (hv : m.lane? f = some v) (hr : (t, .completed r) ∈ v.seen) :
    first ≤ f ∧ r.jobId = v.flight.job.id := by
  have hfine := h.lanes f v hv
  have hf : first ≤ f := by
    refine Nat.le_of_not_lt fun hlt => ?_
    exact (hfine.old hlt).2 r (List.mem_map.2 ⟨_, hr, rfl⟩)
  obtain ⟨before, after, -, hwarrant⟩ := (hfine.judged hf).results t r hr
  refine ⟨hf, ?_⟩
  rw [hwarrant.result]
  rfl

/-- A result that was seen of a flight is that of the job at the place of the flight. -/
theorem Dealt.of_flown (h : m.Dealt e jobs first taken) (hu : m.Underway e jobs first)
    {f t : Nat}
    {r : JobResult} (hs : ⟨t, some f, .completed r⟩ ∈ m.seen) :
    ∃ k v, f = first + k ∧ k < taken ∧ m.lane? f = some v ∧ (t, .completed r) ∈ v.seen ∧
      jobs[k]? = some v.flight.job ∧ r.jobId = v.flight.job.id := by
  obtain ⟨v, hv⟩ := exists_lane_of_lt (hu.orderly.numbered.seen _ hs f rfl)
  have hr := (mem_seen_lane hv).2 hs
  obtain ⟨hf, hid⟩ := hu.jobId_of_completed hv hr
  obtain ⟨k, rfl⟩ := Nat.exists_eq_add_of_le hf
  obtain ⟨hk, hjob⟩ := h.job_of_lane hv
  exact ⟨k, v, rfl, hk, hv, hr, hjob, hid⟩

/-- A result that was seen of no flight is that of a job that was never taken. -/
theorem Dealt.of_turnedAway (h : m.Dealt e jobs first taken) {t : Nat} {r : JobResult}
    (hs : ⟨t, none, .completed r⟩ ∈ m.seen) :
    ∃ k i, taken ≤ k ∧ jobs[k]? = some i ∧ r = e.resultAt i none t .canceled [] := by
  obtain ⟨-, i, hi, hres⟩ := h.refused _ hs rfl r rfl
  obtain ⟨k, hk, hi⟩ := mem_drop_iff.1 hi
  exact ⟨k, i, hk, hi, hres⟩

/-- Once the queue is empty, every job was taken or turned away. -/
theorem Dealt.exists_refusal (h : m.Dealt e jobs first taken) (hqueue : m.queue = []) {k : Nat}
    {i : JobInstance} (hi : jobs[k]? = some i) (hk : taken ≤ k) :
    ∃ time, e.refusal i time ∈ m.seen := by
  have hmem := mem_drop_iff.2 ⟨k, hk, hi⟩
  obtain ⟨gone, hdrop, -, hgone⟩ := h.queue
  rw [hdrop, hqueue, List.append_nil] at hmem
  exact hgone i hmem

/-- What is kept as the result for an id was seen of the flight of a job with that id, or when
such a job was turned away. -/
theorem Dealt.exists_resultFor (h : m.Dealt e jobs first taken) (hu : m.Underway e jobs first)
    {id : Text} {r : JobResult} (hr : (m.reportOf jobs).resultFor id = some r) :
    ∃ k i, jobs[k]? = some i ∧ i.id = id ∧
      (k < taken ∧ (∃ t, ⟨t, some (first + k), .completed r⟩ ∈ m.sightings) ∨
        taken ≤ k ∧ ∃ time, r = e.resultAt i none time .canceled []) := by
  obtain ⟨t, hcompleted, rfl⟩ := ScheduleReport.resultFor_eq_some hr
  obtain ⟨flight, hmem⟩ := ScheduleReport.mem_completed.1 hcompleted
  have hseen : ⟨t, flight, .completed r⟩ ∈ m.seen := List.mem_reverse.1 hmem
  cases flight with
  | none =>
    obtain ⟨k, i, hk, hi, rfl⟩ := h.of_turnedAway hseen
    exact ⟨k, i, hi, rfl, .inr ⟨hk, t, rfl⟩⟩
  | some f =>
    obtain ⟨k, v, rfl, hk, -, -, hi, hid⟩ := h.of_flown hu hseen
    exact ⟨k, v.flight.job, hi, hid.symm, .inl ⟨hk, t, hmem⟩⟩

/-- If no two jobs have the same id, that job is the one asked for. -/
theorem Dealt.resultFor (h : m.Dealt e jobs first taken) (hu : m.Underway e jobs first)
    (hids : (jobs.map JobInstance.id).Nodup) {k : Nat} {i : JobInstance} {r : JobResult}
    (hi : jobs[k]? = some i) (hr : (m.reportOf jobs).resultFor i.id = some r) :
    k < taken ∧ (∃ t, ⟨t, some (first + k), .completed r⟩ ∈ m.sightings) ∨
      taken ≤ k ∧ ∃ time, r = e.resultAt i none time .canceled [] := by
  obtain ⟨j, i', hi', hid, hcases⟩ := h.exists_resultFor hu hr
  obtain rfl := index_unique hids hi hi' hid
  rw [hi] at hi'
  obtain rfl := Option.some.inj hi'
  exact hcases

end Floor

end Conveyor
