import Conveyor.Proofs.Schedule.Accounts
import Conveyor.Proofs.Schedule.Audience
import Conveyor.Proofs.Schedule.Custody
import Conveyor.Proofs.Schedule.Hands
import Conveyor.Proofs.Schedule.Performance

/-!
# Who has a unit

A job that got a unit gives it back, once: after its last script, and before it has its result. A
worker takes no other job before. The one exception is a job that its worker abandons: then the
release may come late, or not at all, but never twice.

- `Note.ofTenure`, `tenureNotes`: what notes tell of the unit and of the result.
- `Engine.Abandons`: a worker leaves a job whose body is not over.
- `Lane.HandedIn`: the unit was given back, and then the job got its result.
- `Floor.Tended`: what holds at every moment of a schedule; `Floor.Tended.moves`.
- `ScheduleReport.KeepsUnit`, `ScheduleReport.ReturnsUnit`: what is seen of a job and its unit.
- `Engine.returnsUnit_schedule`: **every job keeps its unit to itself and gives it back**.
-/

namespace Conveyor

variable {σ : Type}

/-! ## Units and results among notes -/

/-- Does the note tell of the unit of a job, or of its result? -/
def Note.ofTenure : Note → Bool
  | .completed _ => true
  | n => n.ofUnit

/-- What some notes tell of the unit and of the result. -/
def tenureNotes (ns : List Note) : List Note := ns.filter Note.ofTenure

theorem tenureNotes_append (ms ns : List Note) :
    tenureNotes (ms ++ ns) = tenureNotes ms ++ tenureNotes ns := List.filter_append ..

/-- Without a result, the notes tell of the unit only. -/
theorem tenureNotes_eq_unitNotes {ns : List Note} (h : ∀ r, .completed r ∉ ns) :
    tenureNotes ns = unitNotes ns := by
  refine List.filter_congr fun n hn => ?_
  cases n with
  | completed r => exact absurd hn (h r)
  | _ => rfl

/-- Does the note say that a job was overtaken, by the cancellation of the run or by its
timeout? -/
def Note.overtakes : Note → Bool
  | .completed r => r.status = .canceled || r.status = .timedOut
  | _ => false

/-- A worker leaves a job of the schedule whose body is not over. -/
def Engine.Abandons (e : Engine) (jobs : List JobInstance) (fl : Floor σ) (f : Nat) : Prop :=
  ∃ n n' v v', e.Leads (e.staff jobs fl) n ∧ e.Moves n n' ∧ n.lane? f = some v ∧ n'.lane? f =
      some v' ∧
    v.post ≠ .away ∧ v'.post = .away ∧ v.flight.body.isOver = false

/-! ## Lanes -/

namespace Lane

variable {e : Engine} {v v' : Lane}

/-- The body is over, and the result came after all that was seen of the unit. -/
def HandedIn (v : Lane) : Prop :=
  v.flight.body.isOver = true ∧ ∃ r, tenureNotes v.notes = unitNotes v.notes ++ [.completed r]

theorem unitNotes_logs {ns : List Note} (h : ∀ n ∈ ns, ∃ level message, n = .log level message) :
    unitNotes ns = [] := by
  refine unitNotes_eq_nil fun n hn => ?_
  obtain ⟨level, message, rfl⟩ := h n hn
  rfl

/-- A worker that leaves a body that is over, with a result. -/
theorem handedIn_workerTurn (hp : v.post ≠ .away) (hpending : ∀ r, .completed r ∉ v.notes)
    (hover : v.flight.body.isOver = true) {r : JobResult} (hr : .completed r ∈
        (v.tend e).1.notes) :
    (v.workerTurn e).HandedIn := by
  refine ⟨by rw [body_workerTurn e hp]; exact hover, ?_⟩
  rw [notes_workerTurn e hp]
  have htended := v.tended_tend e hp
  generalize (v.tend e).2 = sq at htended
  cases htended with
  | preempts post reason desk => exact absurd hr (not_mem_logs desk.logged.1 r)
  | stops post watch notes orders => exact absurd hr (not_mem_logs notes r)
  | @concludes status ms uncut reason watch logs notes orders =>
    refine ⟨e.resultAt v.flight.job (some v.flight.takenAt) v.around.now status v.flight.steps,
      ?_⟩
    rw [notes, tenureNotes_append, tenureNotes_append, tenureNotes_eq_unitNotes hpending,
      tenureNotes_eq_unitNotes (not_mem_logs logs), unitNotes_append, unitNotes_append,
      unitNotes_logs logs]
    show _ ++ ([] ++ [Note.completed _]) = _ ++ ([] ++ []) ++ _
    rw [List.nil_append, List.nil_append, List.append_nil]

/-- Nothing is seen any more of the unit of a body that is over. -/
theorem unitNotes_cueTurn_of_over {d : Desk} (hn : d.notes = [])
    (hb : d.flight.body.isOver = true)
    (hr : ∀ act, d.flight.release ≠ .fresh act) (c : Cue) : unitNotes (e.cueTurn c d).notes =
    [] := by
  by_cases hcb : c = .body
  · subst hcb
    show unitNotes (e.bodyTurn d).notes = []
    unfold Engine.bodyTurn
    dsimp only
    split
    case h_6 =>
      show unitNotes d.notes = []
      rw [hn]
      rfl
    all_goals
      rename_i hbody
      rw [hbody] at hb
      cases hb
  by_cases hcr : c = .release
  · subst hcr
    have hafter : ∀ (d : Desk) (s : Surroundings) (a : Activity Deed Unit), d.notes = [] →
        unitNotes (d.afterRelease (a.proceed s)).notes = [] := by
      intro d s a hn
      have hout := unitNotes_outside (a.outside_proceed s)
      unfold Desk.afterRelease
      split
      · unfold Desk.endRelease
        split
        · show unitNotes ((d.notes ++ (a.proceed s).notes) ++ [.released]) = []
          rw [hn, List.nil_append, unitNotes_append, hout]
          rfl
        · show unitNotes (d.notes ++ (a.proceed s).notes) = []
          rw [hn, List.nil_append, hout]
      · unfold Desk.pauseRelease Desk.callRelease
        dsimp only
        have hnotes : unitNotes (d.notes ++ (a.proceed s).notes) = [] := by
          rw [hn, List.nil_append, hout]
        split
        · split <;> exact hnotes
        · exact hnotes
    show unitNotes d.releaseTurn.notes = []
    unfold Desk.releaseTurn
    dsimp only
    split
    · rename_i act hact
      exact absurd hact (hr act)
    · exact hafter _ _ _ hn
    · show unitNotes d.notes = []
      rw [hn]
      rfl
  · rw [(Desk.aside_cueTurn e d hcb hcr).notes, hn]
    rfl

/-- A unit that was given back is given back. -/
theorem HandedIn.passes (h : v.HandedIn) (hc : v.Custody) (hpost : v.post = .away)
    (hp : v.Passes e v') : v'.HandedIn := by
  obtain ⟨hover, r, htenure⟩ := h
  have hquiet : ∀ w : Lane, w.flight.body = v.flight.body → w.notes = v.notes → w.HandedIn := by
    intro w hbody hnotes
    refine ⟨by rw [hbody]; exact hover, r, ?_⟩
    rw [hnotes]
    exact htenure
  cases hp with
  | @own i rest ready =>
    cases i with
    | cue c =>
      have hfresh : ∀ act, v.flight.release ≠ .fresh act := by
        intro act hact
        have hbody := hc.body
        cases hb : v.flight.body with
        | ended ending =>
          rw [hb, hact] at hbody
          rcases hbody with hh | hh <;> cases hh.1
        | fresh => rw [hb] at hover; cases hover
        | acquiring next => rw [hb] at hover; cases hover
        | stepping u next => rw [hb] at hover; cases hover
        | releasing u ending hold => rw [hb] at hover; cases hover
      obtain ⟨-, hres, hstays⟩ := e.stays_cueTurn (d := v.desk) rfl rfl c
      have hunit := unitNotes_cueTurn_of_over (e := e) (d := v.desk) rfl hover hfresh c
      refine ⟨?_, r, ?_⟩
      · show (Lane.put (e.cueTurn c v.desk) { v with ready := rest }).flight.body.isOver = true
        rw [put_eq, body_heard, hstays hover]
        exact hover
      · show tenureNotes (Lane.put (e.cueTurn c v.desk) { v with ready := rest }).notes =
          unitNotes (Lane.put (e.cueTurn c v.desk) { v with ready := rest }).notes ++ _
        rw [notes_put, tenureNotes_append, unitNotes_append, tenureNotes_eq_unitNotes hres,
            hunit,
          List.append_nil, List.append_nil]
        exact htenure
    | worker =>
      show ({ v with ready := rest }.workerTurn e).HandedIn
      rw [workerTurn_away e (v := { v with ready := rest }) hpost]
      exact hquiet _ rfl rfl
  | other now canceled =>
    rw [moveTo_eq]
    exact hquiet _ (body_heard ..) rfl
  | cut =>
    rw [cut_of_away hpost]
    exact hquiet _ rfl rfl
  | round ready now later timeout => exact hquiet _ rfl rfl

end Lane

/-! ## Moments of a schedule -/

namespace Floor

variable {e : Engine} {fl fl' m m' : Floor σ} {jobs : List JobInstance} {f g : Nat}

/-- What holds at a moment of a schedule that started on a floor. -/
structure Tended (e : Engine) (jobs : List JobInstance) (m fl : Floor σ) : Prop where
  leads : e.Leads (e.staff jobs fl) m
  underway : m.Underway e jobs fl.flights.length
  custody : ∀ f v, fl.flights.length ≤ f → m.lane? f = some v → v.Custody
  /-- A worker leaves a flight whose unit was given back, or abandons it. -/
  left : ∀ f v, fl.flights.length ≤ f → m.lane? f = some v → v.post = .away →
    m.Stopped ∨ e.Abandons jobs fl f ∨ v.HandedIn
  /-- It has told the receiver, or waits for it. -/
  attended : ∀ f v, fl.flights.length ≤ f → m.lane? f = some v → v.post = .away →
    m.Attended f v.flight.worker v.flight.job.id
  /-- A worker has left its flights before it takes another, and the receiver has answered. -/
  single : ∀ f g v u, fl.flights.length ≤ f → f < g → m.lane? f = some v → m.lane? g = some u →
    v.flight.worker = u.flight.worker →
    v.post = .away ∧ (m.Stopped ∨ Answered f v.flight.worker v.flight.job.id m.sightings)

/-- A worker that leaves a flight gives it a result in that turn, unless it is stopped. -/
theorem Tended.result_of_left (h : m.Tended e jobs fl) (hm : e.Moves m m') {v v' : Lane}
    (hf : fl.flights.length ≤ f) (hv : m.lane? f = some v) (hv' : m'.lane? f = some v')
    (hp : v.post ≠ .away) (hp' : v'.post = .away) :
    m'.Stopped ∨ ∃ (u : Lane) (t : Nat) (r : JobResult), v' = u.workerTurn e ∧
    u.flight = v.flight ∧
      u.post = v.post ∧ u.around = v.around ∧ u.notes = v.notes ∧ (t, .completed r) ∈ v'.seen ∧
      .completed r ∈ (u.tend e).1.notes := by
  obtain ⟨w, hw, hpass⟩ := lane?_moves h.underway.orderly.numbered hm hv
  rw [hv'] at hw
  obtain rfl := Option.some.inj hw
  refine (retired_moves h.underway.orderly hm hv hv' hp hp').imp id ?_
  rintro ⟨t, r, hr⟩
  obtain ⟨rest, -, rfl⟩ := hpass.left hp hp'
  refine ⟨{ v with ready := rest }, t, r, rfl, rfl, rfl, rfl, rfl, hr, ?_⟩
  have hmem : .completed r ∈ (({ v with ready := rest } : Lane).workerTurn e).notes :=
    List.mem_map.2 ⟨_, hr, rfl⟩
  rw [Lane.notes_workerTurn e (v := { v with ready := rest }) hp] at hmem
  exact (List.mem_append.1 hmem).resolve_left
    (((h.underway.lanes f v hv).judged hf).pending hp r)

/-- A worker leaves a flight. -/
theorem Tended.left_moves (h : m.Tended e jobs fl) (hm : e.Moves m m') {v v' : Lane}
    (hf : fl.flights.length ≤ f) (hv : m.lane? f = some v) (hv' : m'.lane? f = some v')
    (hp : v.post ≠ .away) (hp' : v'.post = .away) :
    m'.Stopped ∨ e.Abandons jobs fl f ∨ v'.HandedIn := by
  cases hover : v.flight.body.isOver with
  | false => exact .inr (.inl ⟨m, m', v, v', h.leads, hm, hv, hv', hp, hp', hover⟩)
  | true =>
    refine (h.result_of_left hm hf hv hv' hp hp').imp id ?_
    rintro ⟨u, t, r, rfl, hflight, hpost, -, hnotes, -, hr⟩
    refine .inr (Lane.handedIn_workerTurn (hpost ▸ hp) ?_ (hflight ▸ hover) hr)
    rw [hnotes]
    exact ((h.underway.lanes f v hv).judged hf).pending hp

/-- **What holds at a moment of a schedule holds at the next.** -/
theorem Tended.moves (hg : e.graceSeconds.isNonPositive = false) (h : m.Tended e jobs fl)
    (hm : e.Moves m m') : m'.Tended e jobs fl := by
  have ho := h.underway.orderly
  have hattended : ∀ f v', fl.flights.length ≤ f → m'.lane? f = some v' → v'.post = .away →
      m'.Attended f v'.flight.worker v'.flight.job.id := by
    intro f v' hf hv' hp'
    rcases lane?_moves_back ho hm hv' with ⟨v, hv, hpass⟩ | ⟨i, w, rfl, -, -, rfl⟩
    · obtain ⟨hjob, hworker, -⟩ := hpass.same (call_of_away hv)
      rw [hjob, hworker]
      by_cases hp : v.post = .away
      · exact (h.attended f v hf hv hp).moves ho.numbered hm
      · exact attended_of_left ho hm hv hv' hp hp'
    · cases hp'
  refine ⟨h.leads.tail hm, h.underway.moves hm, ?_, ?_, hattended, ?_⟩
  · intro f v' hf hv'
    rcases lane?_moves_back ho hm hv' with ⟨v, hv, hpass⟩ | ⟨i, w, rfl, -, -, rfl⟩
    · exact (h.custody f v hf hv).passes hg hpass
    · exact Lane.custody_launched i w _
  · intro f v' hf hv' hp'
    rcases lane?_moves_back ho hm hv' with ⟨v, hv, hpass⟩ | ⟨i, w, rfl, -, -, rfl⟩
    · by_cases hp : v.post = .away
      · rcases h.left f v hf hv hp with hstop | hab | hin
        · exact .inl (hstop.moves ho.numbered hm)
        · exact .inr (.inl hab)
        · exact .inr (.inr (hin.passes (h.custody f v hf hv) hp hpass))
      · exact h.left_moves hm hf hv hv' hp hp'
    · cases hp'
  · intro f g v' u' hf hfg hv' hu' hw
    rcases lane?_moves_back ho hm hu' with ⟨u, hu, hpassu⟩ | ⟨i, w, hlen, -, -, rfl⟩
    · rcases lane?_moves_back ho hm hv' with ⟨v, hv, hpassv⟩ | ⟨i, w, hlen, -, -, -⟩
      · obtain ⟨hjob, hworker, -⟩ := hpassv.same (call_of_away hv)
        have hsameu := hpassu.same (call_of_away hu)
        obtain ⟨hp, hans⟩ := h.single f g v u hf hfg hv hu (by rw [← hworker, ← hsameu.2.1, hw])
        refine ⟨hpassv.away hp, hans.imp (fun hs => hs.moves ho.numbered hm) fun ha => ?_⟩
        rw [hjob, hworker]
        exact ha.moves ho.numbered hm
      · have hlt := length_of_lane hu
        omega
    -- The worker has a duty on the flight that it just took, and so on no other, and does not
    -- wait for the receiver.
    · have hp : v'.post = .away := by
        by_contra hp
        have heq := flight_unique hv' hu' hp (by simp [Lane.launched]) hw.symm
        omega
      refine ⟨hp, ?_⟩
      cases hattended f v' hf hv' hp with
      | stopped hs => exact .inl hs
      | answered ha => exact .inr ha
      | telling get duty =>
        obtain ⟨worker, get', hpost, -⟩ := worker_of_lane hu' (by simp [Lane.launched])
        rw [← hw, get] at get'
        rw [← Option.some.inj get', duty] at hpost
        cases hpost

/-- **What holds when a schedule starts.** -/
theorem Open.tended_staff (h : fl.Open e) (jobs : List JobInstance) :
    (e.staff jobs fl).Tended e jobs fl := by
  have hlt : ∀ (f : Nat) (v : Lane), (e.staff jobs fl).lane? f = some v →
      f < fl.flights.length :=
    fun _ _ hv => (length_of_lane hv : _ < (e.staff jobs fl).flights.length)
  refine ⟨.refl, h.underway_staff jobs, ?_, ?_, ?_, ?_⟩
  · intro f v hf hv
    exact absurd (hlt f v hv) (Nat.not_lt.2 hf)
  · intro f v hf hv
    exact absurd (hlt f v hv) (Nat.not_lt.2 hf)
  · intro f v hf hv
    exact absurd (hlt f v hv) (Nat.not_lt.2 hf)
  · intro f g v u hf hfg hv
    exact absurd (hlt f v hv) (Nat.not_lt.2 hf)

theorem Open.tended_leads (hg : e.graceSeconds.isNonPositive = false) (h : fl.Open e)
    (hl : e.Leads (e.staff jobs fl) m) : m.Tended e jobs fl :=
  hl.keeps (P := fun m => m.Tended e jobs fl) (fun _ _ ht hm => ht.moves hg hm)
    (h.tended_staff jobs)

/-- Flights stay what they are. -/
theorem keeps_leads (h : m.Orderly) (hl : e.Leads m m') : m.Keeps m' := by
  have hrun := hl.keeps (P := fun n => n.Orderly ∧ m.Keeps n) ?_ ⟨h, keeps_of_eq rfl⟩
  · exact hrun.2
  · rintro n n' ⟨ho, hk⟩ hm
    refine ⟨ho.moves hm, fun f x hx => ?_⟩
    obtain ⟨y, hy, hxy⟩ := hk f x hx
    obtain ⟨z, hz, hyz⟩ := keeps_moves ho.numbered hm f y hy
    exact ⟨z, hz, hyz.1.trans hxy.1, hyz.2.1.trans hxy.2.1, hyz.2.2.trans hxy.2.2⟩

/-- When all workers are done, none has a flight. -/
theorem away_of_done
    (hdone : ∀ worker ∈ m.workers, worker.duty = .done false) {v : Lane} (hv : m.lane? f =
        some v) :
    v.post = .away := by
  refine away_of_free (fun worker hw => ?_) hv
  rw [hdone worker hw]
  rfl

/-- A worker that leaves a job whose body is not over is stopped, or gives it a result that says
that it was overtaken. -/
theorem Tended.overtaken (h : m.Tended e jobs fl) (hm : e.Moves m m') {v v' : Lane}
    (hf : fl.flights.length ≤ f) (hv : m.lane? f = some v) (hv' : m'.lane? f = some v')
    (hp : v.post ≠ .away) (hp' : v'.post = .away) (hover : v.flight.body.isOver = false) :
    m'.Stopped ∨ ∃ n ∈ v'.seen, n.2.overtakes = true := by
  have hfine := h.underway.lanes f v hv
  refine (h.result_of_left hm hf hv hv' hp hp').imp id ?_
  rintro ⟨u, t, r, rfl, hflight, hpost, haround, hnotes, hseen, hr⟩
  refine ⟨_, hseen, ?_⟩
  have hsound : u.Sound e [] := by
    have hs := hfine.sound_new hf
    refine ⟨fun hu => absurd (hpost ▸ hu) hp, ?_, ?_⟩
    · rw [hflight, hnotes]
      exact hs.steps
    · rw [hflight, haround, hnotes]
      exact hs.body
  have hconcludes : u.Concludes e r := by
    refine Lane.concludes_of_mem ?_ hsound (hpost ▸ hp) hr
    rw [hpost, haround, hflight]
    exact (hfine.vigilant hf).causes
  -- A verdict of success or failure needs a body that is over; the other two overtake it.
  show (decide (r.status = .canceled) || decide (r.status = .timedOut)) = true
  cases hstatus : r.status with
  | canceled => rfl
  | timedOut => rfl
  | success =>
    have hb := hconcludes.success hstatus
    rw [hflight] at hb
    rw [hb] at hover
    cases hover
  | failed =>
    have hb := hconcludes.failed hstatus
    rw [hflight, hover] at hb
    cases hb

/-- Before a worker takes a job, that which it took before has its result, and the receiver has
answered. -/
theorem Tended.answered_before (h : m.Tended e jobs fl)
    (hg : e.graceSeconds.isNonPositive = false)
    (hopen : fl.Open e) (hstop : ¬m.Stopped) {x y : Flight} (hf : fl.flights.length ≤ f)
    (hfg : f < g)
    (hx : m.flights[f]? = some x) (hy : m.flights[g]? = some y) (hw : x.worker = y.worker)
    {before after : List Sighting} {t : Nat} {note : Note}
    (hs : m.sightings = before ++ ⟨t, some g, note⟩ :: after) :
    Answered f x.worker x.job.id before := by
  have horder := hopen.orderly_staff (e := e) jobs
  have hpast : before ++ [⟨t, some g, note⟩] <+: m.sightings := ⟨after, by simp [hs]⟩
  have hmem : ⟨t, some g, note⟩ ∈ before ++ [⟨t, some g, note⟩] :=
    List.mem_append_right _ List.mem_cons_self
  rcases exists_moment horder h.leads hpast with hold | ⟨n, ss, hln, hnm, hpast, hknown⟩
  · have hseen := (hopen.seen _ (List.mem_reverse.1 (hold.mem hmem))).1
    cases hseen
  · -- At that moment both jobs are in flight, and the receiver has answered for the first.
    have htended := hopen.tended_leads hg hln
    have hglt : g < n.flights.length := by
      rw [hpast] at hmem
      rcases List.mem_append.1 hmem with hmem | hmem
      · exact htended.underway.orderly.numbered.seen _ (List.mem_reverse.1 hmem) g rfl
      · exact hknown _ hmem g rfl
    have hflt : f < n.flights.length := Nat.lt_trans hfg hglt
    have hkeeps := keeps_leads htended.underway.orderly hnm
    obtain ⟨x', hx', hsamex⟩ := hkeeps f _ (List.getElem?_eq_getElem hflt)
    obtain ⟨y', hy', hsamey⟩ := hkeeps g _ (List.getElem?_eq_getElem hglt)
    rw [hx] at hx'
    rw [hy] at hy'
    obtain rfl := Option.some.inj hx'
    obtain rfl := Option.some.inj hy'
    have hv : n.lane? f = some (n.laneOf f n.flights[f]) :=
      lane?_eq_some.2 ⟨_, List.getElem?_eq_getElem hflt, rfl⟩
    have hu : n.lane? g = some (n.laneOf g n.flights[g]) :=
      lane?_eq_some.2 ⟨_, List.getElem?_eq_getElem hglt, rfl⟩
    have hworker : n.flights[f].worker = n.flights[g].worker := by
      rw [← hsamex.2.1, ← hsamey.2.1, hw]
    have hnstop : ¬n.Stopped := fun hn => hstop (hn.leads htended.underway.orderly hnm)
    have hans := (htended.single f g _ _ hf hfg hv hu hworker).2.resolve_left hnstop
    rw [hsamex.1, hsamex.2.1]
    refine Answered.init (x := ⟨t, some g, note⟩) ?_ (by simp)
    rw [hpast]
    exact hans.append ss

end Floor

/-! ## Reports -/

namespace ScheduleReport

/-- What was seen of a flight, in order. -/
def noted (s : ScheduleReport) (f : Nat) : List Note := (s.seenOf f).map Prod.snd

/-- In the unit that a job acquires, its scripts are executed one after another; then the unit is
released. That may be seen in part only, but never twice, and never without a unit. -/
structure KeepsUnit (s : ScheduleReport) (f : Nat) : Prop where
  inOrder : ∃ calls, unitNotes (s.noted f) <+: tenancy calls ++ [.releasing]
  once : (s.noted f).count .releasing ≤ 1
  owned : .releasing ∈ s.noted f → .acquired ∈ s.noted f

/-- A job that got a unit gives it back, once, after its last script and before it has its
result; a job that got none has its result. -/
structure ReturnsUnit (s : ScheduleReport) (f : Nat) : Prop where
  inOrder : ∃ r, tenureNotes (s.noted f) = [.completed r] ∨
    ∃ calls, tenureNotes (s.noted f) = tenancy calls ++ [.releasing, .completed r]
  once : .acquired ∈ s.noted f → (s.noted f).count .releasing = 1

end ScheduleReport

section

variable {ns : List Note} {calls : List (Text × Bindings)}

theorem count_unitNotes {n : Note} (hn : n.ofUnit = true) (ns : List Note) :
    (unitNotes ns).count n = ns.count n := List.count_filter hn

theorem count_tenureNotes {n : Note} (hn : n.ofTenure = true) (ns : List Note) :
    (tenureNotes ns).count n = ns.count n := List.count_filter hn

theorem releasing_not_mem_tenancy (calls : List (Text × Bindings)) :
    .releasing ∉ tenancy calls := by
  simp [tenancy]

/-- In a tenancy, the unit is released at the end only. -/
theorem count_releasing (calls : List (Text × Bindings)) (r : List Note) :
    (tenancy calls ++ .releasing :: r).count .releasing = r.count .releasing + 1 := by
  rw [List.count_append, List.count_cons_self,
      List.count_eq_zero.2 (releasing_not_mem_tenancy calls),
    Nat.zero_add]

/-- What is seen of a unit in part starts with its acquisition. -/
theorem acquired_of_prefix {l : List Note} (h : l <+: tenancy calls ++ [.releasing])
    (hne : l ≠ []) :
    .acquired ∈ l := by
  cases l with
  | nil => exact absurd rfl hne
  | cons n l =>
    obtain ⟨rest, hrest⟩ := h
    rw [tenancy, List.cons_append, List.cons_append, List.cons.injEq] at hrest
    rw [hrest.1]
    exact List.mem_cons_self

end

namespace Lane

variable {v : Lane}

/-- What was seen of the unit of a flight is a part of a tenancy. -/
theorem Custody.inOrder (h : v.Custody) :
    ∃ calls, unitNotes v.notes <+: tenancy calls ++ [.releasing] := by
  have hover : ∀ {r ns}, HandedOver r ns → ∃ calls, unitNotes ns <+: tenancy calls ++
      [.releasing] := by
    rintro r ns ⟨-, calls, hcalls⟩
    exact ⟨calls, hcalls ▸ List.prefix_refl _⟩
  have hnothing : unitNotes v.notes = [] →
      ∃ calls, unitNotes v.notes <+: tenancy calls ++ [.releasing] :=
    fun hu => ⟨[], hu ▸ List.nil_prefix⟩
  have hbody := h.body
  cases hb : v.flight.body with
  | fresh =>
    rw [hb] at hbody
    exact hnothing hbody.2
  | acquiring next =>
    rw [hb] at hbody
    exact hnothing hbody.2
  -- The unit is still in use: what was asked of it so far begins its tenancy.
  | stepping u next =>
    rw [hb] at hbody
    obtain ⟨-, ms, -, hms, ⟨-, calls, script, env, hcalls⟩, -⟩ := hbody
    refine ⟨calls ++ [(script, env)], ?_⟩
    rw [← hms, hcalls, tenancy_snoc]
    exact ⟨[.ended, .releasing], by simp⟩
  | releasing u ending hold =>
    rw [hb] at hbody
    rcases hbody with hh | ⟨-, -, calls, hcalls⟩
    · exact hover hh
    · exact ⟨calls, hcalls ▸ List.prefix_append _ _⟩
  | ended ending =>
    rw [hb] at hbody
    exact hbody.elim hover fun hh => hnothing hh.2

/-- What was seen of a flight whose unit was given back. -/
theorem HandedIn.inOrder (h : v.HandedIn) (hc : v.Custody) :
    ∃ r, tenureNotes v.notes = [.completed r] ∨
      ∃ calls, tenureNotes v.notes = tenancy calls ++ [.releasing, .completed r] := by
  obtain ⟨hover, r, htenure⟩ := h
  refine ⟨r, ?_⟩
  have hbody := hc.body
  cases hb : v.flight.body with
  | ended ending =>
    rw [hb] at hbody
    rcases hbody with ⟨-, calls, hcalls⟩ | ⟨-, hu⟩
    · exact .inr ⟨calls, by rw [htenure, hcalls, List.append_assoc]; rfl⟩
    · exact .inl (by rw [htenure, hu]; rfl)
  | fresh => rw [hb] at hover; cases hover
  | acquiring next => rw [hb] at hover; cases hover
  | stepping u next => rw [hb] at hover; cases hover
  | releasing u ending hold => rw [hb] at hover; cases hover

end Lane

namespace Engine

variable {e : Engine} {fl fl' : Floor σ} {jobs : List JobInstance} {s : ScheduleReport}

theorem noted_reportOf {m : Floor σ} {f : Nat} {v : Lane} (hv : m.lane? f = some v) :
    (m.reportOf jobs).noted f = v.notes := by
  obtain ⟨x, hx, rfl⟩ := Floor.lane?_eq_some.1 hv
  unfold ScheduleReport.noted
  rw [Floor.seenOf_reportOf]
  rfl

theorem keepsUnit_of_custody {m : Floor σ} {f : Nat} {v : Lane} (hv : m.lane? f = some v)
    (hc : v.Custody) : (m.reportOf jobs).KeepsUnit f := by
  obtain ⟨calls, hprefix⟩ := hc.inOrder
  have hcount := hprefix.sublist.count_le .releasing
  rw [count_unitNotes rfl, count_releasing] at hcount
  refine ⟨?_, ?_, ?_⟩
  · rw [noted_reportOf hv]
    exact ⟨calls, hprefix⟩
  · rw [noted_reportOf hv]
    exact hcount
  · rw [noted_reportOf hv]
    intro hmem
    have hunit : .releasing ∈ unitNotes v.notes := List.mem_filter.2 ⟨hmem, rfl⟩
    have hacquired := acquired_of_prefix hprefix (List.ne_nil_of_mem hunit)
    exact (List.mem_filter.1 hacquired).1

theorem returnsUnit_of_handedIn {m : Floor σ} {f : Nat} {v : Lane} (hv : m.lane? f = some v)
    (hc : v.Custody) (hin : v.HandedIn) : (m.reportOf jobs).ReturnsUnit f := by
  obtain ⟨r, hr⟩ := hin.inOrder hc
  refine ⟨?_, ?_⟩
  · rw [noted_reportOf hv]
    exact ⟨r, hr⟩
  · rw [noted_reportOf hv]
    intro hmem
    have htenure : .acquired ∈ tenureNotes v.notes := List.mem_filter.2 ⟨hmem, rfl⟩
    rw [← count_tenureNotes (n := .releasing) rfl]
    rcases hr with hr | ⟨calls, hr⟩
    · rw [hr] at htenure
      simp at htenure
    · rw [hr, count_releasing]
      rfl

/-- Only a job that was overtaken is abandoned. -/
theorem Abandons.overtaken {f : Nat} (h : e.Abandons jobs fl f) (ho : e.Opens fl)
    (hgrace : e.graceSeconds.isNonPositive = false) (hjobs : jobs ≠ [])
    (hrun : e.reportSchedule jobs fl = some (s, fl')) (hfinished : s.ending = .finished)
    (hf : fl.flights.length ≤ f) : ∃ n ∈ s.noted f, n.overtakes = true := by
  obtain ⟨m, rest, hl, hready, rfl, -⟩ := reportSchedule_eq_some hjobs hrun
  have hstop : ¬m.Stopped := Floor.not_stopped_of_finished hfinished
  obtain ⟨n, n', v, v', hln, hm, hv, hv', hp, hp', hover⟩ := h
  have htended := ho.isOpen.tended_leads hgrace hln
  have horder := (htended.underway.moves hm).orderly
  have hnm : e.Leads n' m := hl.to_end hready (hln.tail hm)
  rcases htended.overtaken hm hf hv hv' hp hp' hover with hs | ⟨note, hnote, hstatus⟩
  · exact absurd (hs.leads horder hnm) hstop
  -- What was seen when the worker left is still to be seen at the end.
  · have hseen := hnm.keeps (P := fun k => k.Orderly ∧ note ∈ seenOf f k.seen) ?_ ⟨horder, ?_⟩
    · refine ⟨note.2, ?_, hstatus⟩
      unfold ScheduleReport.noted
      rw [Floor.seenOf_reportOf]
      exact List.mem_map_of_mem hseen.2
    · rintro k k' ⟨hk, hmem⟩ hmk
      obtain ⟨new, hnew, -⟩ := Floor.seenOf_moves hk.numbered hmk f
      refine ⟨hk.moves hmk, ?_⟩
      rw [hnew]
      exact List.mem_append_left _ hmem
    · obtain ⟨x, -, rfl⟩ := Floor.lane?_eq_some.1 hv'
      exact hnote

/-- **Every job keeps its unit to itself and gives it back.** What is seen of a unit is always in
order, and the scripts are those that the steps of the job run in it; a job that is not abandoned
gives its unit back before it has its result, of which the receiver is told. Only when the
receiver is done with that, its worker takes another job. -/
theorem returnsUnit_schedule (ho : e.Opens fl) (hgrace : e.graceSeconds.isNonPositive = false)
    (hrun : e.reportSchedule jobs fl = some (s, fl')) (hfinished : s.ending = .finished) :
    (∀ (f : Nat) (x : Flight), fl.flights.length ≤ f → fl'.flights[f]? = some x →
      s.KeepsUnit f ∧ x.job.CarriedOut e (s.noted f) ∧
      (¬e.Abandons jobs fl f → s.ReturnsUnit f)) ∧
    ∀ (f g : Nat) (x y : Flight), fl.flights.length ≤ f → f < g → fl'.flights[f]? = some x →
      fl'.flights[g]? = some y → x.worker = y.worker →
      ∀ before t n after, s.sightings = before ++ ⟨t, some g, n⟩ :: after →
        Answered f x.worker x.job.id before := by
  by_cases hjobs : jobs = []
  · subst hjobs
    rw [e.reportSchedule_nil] at hrun
    cases hrun
    have hnone : ∀ (f : Nat) (x : Flight), fl.flights.length ≤ f → fl.flights[f]? ≠ some x :=
      fun f x hf hx => Nat.not_lt.2 hf (List.getElem?_eq_some_iff.1 hx).1
    exact ⟨fun f x hf hx => absurd hx (hnone f x hf), fun f g x y hf _ hx =>
      absurd hx (hnone f x hf)⟩
  obtain ⟨m, rest, hl, hready, rfl, rfl⟩ := reportSchedule_eq_some hjobs hrun
  have htended := ho.isOpen.tended_leads hgrace hl
  have hstop : ¬m.Stopped := Floor.not_stopped_of_finished hfinished
  obtain ⟨hdone, -, -⟩ := htended.underway.orderly.staffed.finished_all hready hstop
  refine ⟨fun f x hf hx => ?_, ?_⟩
  · have hv : m.lane? f = some (m.laneOf f x) := Floor.lane?_eq_some.2 ⟨x, hx, rfl⟩
    have hcustody := htended.custody f _ hf hv
    refine ⟨?_, ?_, fun hab => ?_⟩
    · exact keepsUnit_of_custody hv hcustody
    · rw [noted_reportOf hv]
      exact ho.isOpen.carriedOut_leads hl hf hv
    · have hin := (htended.left f _ hf hv (Floor.away_of_done hdone hv)).resolve_left hstop
      exact returnsUnit_of_handedIn hv hcustody (hin.resolve_left hab)
  · intro f g x y hf hfg hx hy hw before t n after hs
    exact htended.answered_before hgrace ho.isOpen hstop hf hfg hx hy hw hs

/-- A plan by which units with the image `bad` cannot be had, and job `a` takes a while to give
its unit back. -/
def leasePlan : ProvisionPlan :=
  { ProvisionPlan.smooth with fail := [("bad", "no such image")], releaseMs := [("a", 20)] }

/-- Three jobs: one with two scripts, one that gets no unit, and one that cannot be interrupted
in time. -/
def leasedJobs : List JobInstance :=
  [.rehearsal "a" "" (.ofInt 60) ["sleep 10", "exit 1"], .rehearsal "b" "bad" (.ofInt 60)
      ["exit 0"],
   .rehearsal "c" "" (.ofInt 1) ["stubborn 7000"]]

/-- With one slot: the first job gives its unit back, the second had none, and the third, which
is abandoned, is not seen to give it back. Whoever is told the results takes its time, and then
fails; the second job is not taken before. -/
theorem returnsUnit_schedule_oneSlot :
    ∃ s fl', (rehearsal leasePlan 1).reportSchedule leasedJobs (.telling slowReceiver) =
    some (s, fl') ∧
      s.ending = .finished ∧
      (List.range 3).map (fun f => (tenureNotes (s.noted f)).length) = [7, 1, 3] ∧
      s.ReturnsUnit 0 ∧ s.ReturnsUnit 1 ∧ s.KeepsUnit 2 ∧
      ∃ x y, fl'.flights[0]? = some x ∧ fl'.flights[1]? = some y ∧ x.worker = y.worker ∧
        x.job.CarriedOut (rehearsal leasePlan 1) (s.noted 0) ∧
        ∀ before t n after, s.sightings = before ++ ⟨t, some 1, n⟩ :: after →
          Answered 0 x.worker "a" before := by
  have hrun : ((rehearsal leasePlan 1).reportIn 80 leasedJobs (.telling slowReceiver)).map
      (fun r => (r.1.ending, (List.range 3).map (fun f => (tenureNotes (r.1.noted f)).length),
        (List.range 3).map (fun f => (r.1.noted f).any Note.overtakes),
        r.2.flights.map fun x => (x.worker, x.job.id))) =
      some (.finished, [7, 1, 3], [false, false, true],
        [(0, Text.ofString "a"), (0, Text.ofString "b"), (0, Text.ofString "c")]) := by
    decide +kernel
  obtain ⟨⟨s, fl'⟩, hreport, hseen⟩ := Option.map_eq_some_iff.1 hrun
  simp only [Prod.mk.injEq] at hseen
  obtain ⟨hfinished, htenure, hovertaken, hflights⟩ := hseen
  have hschedule := reportSchedule_of_reportIn rfl hreport
  have hgrace : (rehearsal leasePlan 1).graceSeconds.isNonPositive = false := by decide
  have hopens := opens_telling (rehearsal leasePlan 1) slowReceiver
  obtain ⟨hunits, hanswered⟩ := returnsUnit_schedule hopens hgrace hschedule hfinished
  have hkept : ∀ f, (s.noted f).any Note.overtakes = false →
      ¬(rehearsal leasePlan 1).Abandons leasedJobs (.telling slowReceiver) f := by
    intro f hno hab
    obtain ⟨n, hn, ho⟩ := hab.overtaken hopens hgrace (by simp [leasedJobs]) hschedule hfinished
      (Nat.zero_le f)
    exact absurd ho (List.any_eq_false.1 hno n hn)
  have hget : ∀ f, (fl'.flights[f]?).map (fun x : Flight => (x.worker, x.job.id)) =
      [(0, Text.ofString "a"), (0, Text.ofString "b"), (0, Text.ofString "c")][f]? := fun f => by
    rw [← hflights, List.getElem?_map]
  obtain ⟨x, hx, hxa⟩ := Option.map_eq_some_iff.1 (hget 0)
  obtain ⟨y, hy, hyb⟩ := Option.map_eq_some_iff.1 (hget 1)
  obtain ⟨z, hz, -⟩ := Option.map_eq_some_iff.1 (hget 2)
  obtain ⟨hxw, hxid⟩ := Prod.mk.inj hxa
  obtain ⟨hyw, -⟩ := Prod.mk.inj hyb
  simp only [List.range, List.range.loop, List.map_cons, List.map_nil,
    List.cons.injEq] at hovertaken
  obtain ⟨-, hcarried, hreturned⟩ := hunits 0 x (Nat.zero_le _) hx
  refine ⟨s, fl', hschedule, hfinished, htenure, ?_, ?_, ?_, x, y, hx, hy, hxw.trans hyw.symm,
    hcarried, ?_⟩
  · exact hreturned (hkept 0 hovertaken.1)
  · exact (hunits 1 y (Nat.zero_le _) hy).2.2 (hkept 1 hovertaken.2.1)
  · exact (hunits 2 z (Nat.zero_le _) hz).1
  · rw [← hxid]
    exact hanswered 0 1 x y (Nat.zero_le _) Nat.one_pos hx hy (hxw.trans hyw.symm)

end Engine

end Conveyor
