import Conveyor.Proofs.Schedule.Chimes
import Conveyor.Proofs.Schedule.Ledger

/-!
# Lanes with their timers

As long as no limit is undefined, a lane and the timers that are set for it make up all that
decides what becomes of a flight: nothing that happens to other flights can delay its timers.

- `Track`: a lane, and the timers that are set for it.
- `Track.Passes`: what a move on the floor can do to a track.
- `Floor.track?_moves`: **every move is a move on every track**.
- `Track.Armed`: the timer that ends a vigil is set, or has gone off.
- `Track.Armed.passes`: **it stays set as long as the vigil lasts, and no time passes beyond
  it**.
-/

namespace Conveyor

variable {σ : Type}

/-- A lane, and the timers that are set for it. -/
structure Track where
  lane : Lane
  chimes : List Chime

namespace Track

/-- A turn in the lane. -/
def turn (e : Engine) (k : Track) (i : Item) : Track :=
  { lane := k.lane.turn e i
    chimes := (k.lane.deskAfter e i).orders.foldl (Chime.obey k.lane.around.now) k.chimes }

/-- The next round, at a time. -/
def tick (time : Nat) (k : Track) : Track :=
  { lane := k.lane.tick time ((k.chimes.filter fun c => c.due.hasCome time).map Chime.bell)
    chimes := k.chimes.filter fun c => !c.due.hasCome time }

/-- The track without the first of its turns. -/
def pop (rest : List Item) (k : Track) : Track :=
  { k with lane := { k.lane with ready := rest } }

/-- What a move on the floor can do to a track. -/
inductive Passes (e : Engine) : Track → Track → Prop
  /-- The next turn of the lane. -/
  | own {k : Track} {i : Item} {rest : List Item} (ready : k.lane.ready = i :: rest) :
      Passes e k ((k.pop rest).turn e i)
  /-- A turn of somebody else. -/
  | other {k : Track} {s : Surroundings} (now : s.now = k.lane.around.now)
      (canceled : k.lane.around.canceled = true → s.canceled = true) :
      Passes e k { k with lane := k.lane.moveTo s }
  /-- The whole schedule is stopped. -/
  | cut {k : Track} : Passes e k { k with lane := k.lane.cut }
  /-- The next round; no time passes as long as there are turns to come, and never more than up
  to the next timer. -/
  | round {k : Track} {time : Nat} (ready : k.lane.ready = []) (now : k.lane.around.now ≤ time)
      (later : k.lane.later ≠ [] → time = k.lane.around.now)
      (due : ∀ c ∈ k.chimes, ∀ u, c.due = .time u →
        (time : Int) ≤ max (k.lane.around.now : Int) u) :
      Passes e k (k.tick time)

/-- A job that was just taken, with its timeout. -/
def launched (i : JobInstance) (w : Nat) (s : Surroundings) : Track :=
  { lane := .launched i w s
    chimes := ((Span.ofSeconds i.timeoutSeconds).due s.now).toList.map fun due =>
      ⟨due, .timeout⟩ }

end Track

/-! ## Tracks on the floor -/

namespace Floor

/-- The track of a flight. -/
def track? (f : Nat) (fl : Floor σ) : Option Track :=
  (fl.lane? f).map fun v => ⟨v, Timer.chimes f fl.timers⟩

variable {e : Engine} {fl fl' : Floor σ} {f : Nat} {v : Lane} {k k' : Track}

theorem track?_of_lane (hv : fl.lane? f = some v) :
    fl.track? f = some ⟨v, Timer.chimes f fl.timers⟩ := by
  rw [track?, hv]
  rfl

theorem lane_of_track? (hk : fl.track? f = some k) :
    fl.lane? f = some k.lane ∧ k.chimes = Timer.chimes f fl.timers := by
  obtain ⟨v, hv, rfl⟩ := Option.map_eq_some_iff.1 hk
  exact ⟨hv, rfl⟩

/-- A turn is one in the lane of the track, or of somebody else, or stops the whole schedule. -/
theorem track_passes_turn (he : e.Timely) (h : fl.Numbered) (hin : Timer.InOrder fl.timers)
    {t : Turn}
    {rest : List Turn} (ready : fl.ready = t :: rest) (hk : fl.track? f = some k) {v' : Lane}
    (hv' : (e.step t { fl with ready := rest }).lane? f = some v') :
    k.Passes e ⟨v', Timer.chimes f (e.step t { fl with ready := rest }).timers⟩ := by
  obtain ⟨hv, hcs⟩ := lane_of_track? hk
  have hA : { fl with ready := rest }.Assigned := assigned_of_same h.assigned rfl rfl
  have hnow : k.lane.around.now = fl.now := congrArg Surroundings.now (around_of_lane hv)
  rcases lane?_pop ready hv with ⟨i, items, ht, hready, hlane⟩ | ⟨ht, hlane⟩
  · have hown := lane?_step_own e hlane ht
    rw [hv'] at hown
    rw [Option.some.inj hown, chimes_step_own he hA hin hlane ht]
    have hp := Track.Passes.own (e := e) hready
    unfold Track.turn at hp
    rw [show (k.pop items).chimes = Timer.chimes f fl.timers from hcs,
      show (k.pop items).lane.around.now = fl.now from hnow] at hp
    exact hp
  · rw [chimes_step_other e hA hlane ht, ← hcs]
    by_cases hstop : t = .stop
    · -- A lane from which the worker has gone already is not cut.
      subst hstop
      rcases lane?_stop e hlane with hcut | hcut
      · rw [hv'] at hcut
        have hself := Track.Passes.other (e := e) (k := k) (s := k.lane.around) rfl id
        rw [Lane.moveTo_self] at hself
        rw [Option.some.inj hcut]
        exact hself
      · rw [hv'] at hcut
        rw [Option.some.inj hcut]
        exact .cut
    · have hother := lane?_step_other e hA hlane ht hstop
      rw [hv'] at hother
      rw [Option.some.inj hother]
      obtain ⟨hclock, hcanceled⟩ := around_step e hA hlane t
      exact .other hclock hcanceled

/-- The next round is one for every track: no time passes beyond its own timers. -/
theorem track_passes_round (hin : Timer.InOrder fl.timers) (ready : fl.ready = [])
    (next : fl.nextRound = some fl') (hk : fl.track? f = some k) {v' : Lane}
    (hv' : fl'.lane? f = some v') : k.Passes e ⟨v', Timer.chimes f fl'.timers⟩ := by
  obtain ⟨hv, hcs⟩ := lane_of_track? hk
  have htick := lane?_nextRound next hv
  rw [hv'] at htick
  obtain ⟨hkept, hbells⟩ := chimes_nextRound hin next f
  rw [hbells] at htick
  rw [Option.some.inj htick, hkept, ← hcs]
  obtain ⟨hready, hnow, hlater⟩ := clock_of_round ready next hv
  refine .round hready hnow hlater fun c hc u hu => ?_
  rw [hcs] at hc
  obtain ⟨t, ht, hchime⟩ := List.mem_filterMap.1 hc
  obtain rfl := Timer.chime?_eq_some.1 hchime
  rw [(nextRound_eq_some next).2.1,
    show k.lane.around.now = fl.now from congrArg Surroundings.now (around_of_lane hv)]
  split
  · exact Timer.wakeTime_le hin fl.now ht hu
  · exact Int.le_max_left _ _

/-- **Every move is a move on every track.** -/
theorem track?_moves (he : e.Timely) (h : fl.Numbered) (hin : Timer.InOrder fl.timers)
    (hm : e.Moves fl fl') (hk : fl.track? f = some k) :
    ∃ k', fl'.track? f = some k' ∧ k.Passes e k' ∧ k.lane.Passes e k'.lane := by
  obtain ⟨v', hv', hpass⟩ := lane?_moves h hm (lane_of_track? hk).1
  refine ⟨_, track?_of_lane hv', ?_, hpass⟩
  cases hm with
  | turn ready other => exact track_passes_turn he h hin ready hk hv'
  | round ready next => exact track_passes_round hin ready next hk hv'

/-- The timers of a job that is taken: its timeout. -/
theorem chimes_taken (he : e.Timely) (ho : fl.Orderly) (hin : fl.InTime) (hm : e.Moves fl fl')
    {i : JobInstance} {rest : List JobInstance} (hqueue : fl.queue = i :: rest)
    (hlength : fl'.flights.length = fl.flights.length + 1) :
    Timer.chimes fl.flights.length fl'.timers =
      ((Span.ofSeconds i.timeoutSeconds).due fl.now).toList.map fun due => ⟨due, .timeout⟩ := by
  -- No timer is set for a flight before it is there.
  have hnone : Timer.chimes fl.flights.length fl.timers = [] := by
    refine List.filterMap_eq_nil_iff.2 fun t ht => ?_
    by_contra hc
    obtain ⟨c, hc⟩ := Option.ne_none_iff_exists'.1 hc
    have halarm := congrArg Timer.alarm (Timer.chime?_eq_some.1 hc)
    obtain ⟨x, hx, -⟩ := ho.numbered.timers t ht _ _ halarm
    exact absurd (List.getElem?_eq_some_iff.1 hx).1 (Nat.lt_irrefl _)
  cases hm with
  | @turn t turns ready other =>
    have hA : { fl with ready := turns }.Assigned :=
      assigned_of_same ho.numbered.assigned rfl rfl
    obtain ⟨ts, hts, hstep⟩ := timers_step e hA t
    have hts' : Timer.InOrder ts ∧ Timer.chimes fl.flights.length ts = [] := by
      cases hts with
      | nothing nobody => exact ⟨hin.timers, hnone⟩
      | @own g u j lane item =>
        have hlt : g < { fl with ready := turns }.flights.length := length_of_lane lane
        have hne : g ≠ fl.flights.length := Nat.ne_of_lt hlt
        refine ⟨(Timer.obey_foldl_self hin.timers g _ (u.isTimely_deskAfter he j)).1, ?_⟩
        exact (Timer.obey_foldl_other hne _ _ _).trans hnone
    cases hstep with
    | same timers length =>
      rw [hlength] at length
      exact absurd length (Nat.succ_ne_self _)
    | wait timers length =>
      rw [hlength] at length
      exact absurd length (Nat.succ_ne_self _)
    | @take i' rest' queue timers =>
      have hcons : i :: rest = i' :: rest' := hqueue.symm.trans queue
      obtain ⟨rfl, -⟩ := List.cons.inj hcons
      rw [timers]
      unfold Timer.setTimeout
      dsimp only [Floor.now]
      cases (Span.ofSeconds i.timeoutSeconds).due fl.around.now with
      | none => exact hts'.2
      | some due =>
        have hself := Timer.chimes_insert_self hts'.1 fl.flights.length due .timeout
        rw [hts'.2] at hself
        exact hself
  | round ready next =>
    rw [(nextRound_eq_some next).2.2] at hlength
    exact absurd hlength.symm (Nat.succ_ne_self _)

/-- A track after a move is an old track, or that of a job that was just taken. -/
theorem track?_moves_back (he : e.Timely) (ho : fl.Orderly) (hin : fl.InTime)
    (hm : e.Moves fl fl')
    (hk' : fl'.track? f = some k') :
    (∃ k, fl.track? f = some k ∧ k.Passes e k' ∧ k.lane.Passes e k'.lane) ∨
    ∃ i w, f = fl.flights.length ∧ fl.queue = i :: fl'.queue ∧ fl.around.canceled = false ∧
      k' = Track.launched i w fl.around := by
  obtain ⟨hv', hcs'⟩ := lane_of_track? hk'
  rcases lane?_moves_back ho hm hv' with ⟨v, hv, -⟩ | ⟨i, w, rfl, hqueue, hrun, hlaunched⟩
  · obtain ⟨k'', hk'', hpass⟩ := track?_moves he ho.numbered hin.timers hm (track?_of_lane hv)
    rw [hk'] at hk''
    obtain rfl := Option.some.inj hk''
    exact .inl ⟨_, track?_of_lane hv, hpass⟩
  · refine .inr ⟨i, w, rfl, hqueue, hrun, ?_⟩
    have hlength : fl'.flights.length = fl.flights.length + 1 := by
      have hlt := length_of_lane hv'
      cases deals_moves ho hm with
      | keep queue length => omega
      | take queue running length lane => exact length
      | drain canceled queue length refused => omega
    rw [chimes_taken he ho hin hm hqueue hlength] at hcs'
    cases k' with
    | mk lane chimes =>
      subst hlaunched hcs'
      rfl

theorem InTime.leads (he : e.Timely) (ho : fl.Orderly) (h : fl.InTime) (hl : e.Leads fl fl') :
    fl'.InTime := by
  have hrun := hl.keeps (P := fun m => m.Orderly ∧ m.InTime) ?_ ⟨ho, h⟩
  · exact hrun.2
  · rintro m m' ⟨ho, h⟩ hm
    exact ⟨ho.moves hm, h.moves he ho hm⟩

/-- Something holds of every track. -/
def Tracks (P : Nat → Track → Prop) (fl : Floor σ) : Prop := ∀ f k, fl.track? f = some k → P f k

variable {P : Nat → Track → Prop}

/-- What a move keeps on a track, and what holds on every new track, holds after it. -/
theorem Tracks.moves (he : e.Timely)
    (hpass : ∀ f k k', P f k → k.Passes e k' → k.lane.Passes e k'.lane → P f k')
    (hnew : ∀ i w s, s.canceled = false → P fl.flights.length (Track.launched i w s))
    (ho : fl.Orderly) (hin : fl.InTime) (hm : e.Moves fl fl') (h : fl.Tracks P) :
    fl'.Tracks P := by
  intro f k' hk'
  rcases track?_moves_back he ho hin hm hk' with ⟨k, hk, hp, hp'⟩ | ⟨i, w, rfl, -, hrun, rfl⟩
  · exact hpass f k k' (h f k hk) hp hp'
  · exact hnew i w _ hrun

/-- **What a move keeps on a track, and what holds on every new track, holds along a run.** -/
theorem Tracks.leads (he : e.Timely)
    (hpass : ∀ f k k', P f k → k.Passes e k' → k.lane.Passes e k'.lane → P f k')
    (hnew : ∀ f i w s, fl.flights.length ≤ f → s.canceled = false → P f (Track.launched i w s))
    (ho : fl.Orderly) (hin : fl.InTime) (hl : e.Leads fl fl') (h : fl.Tracks P) :
    fl'.Tracks P := by
  have hrun := hl.keeps
    (P := fun m => m.Orderly ∧ m.InTime ∧ fl.flights.length ≤ m.flights.length ∧ m.Tracks P) ?_
    ⟨ho, hin, Nat.le_refl _, h⟩
  · exact hrun.2.2.2
  · rintro m m' ⟨ho, hin, hlen, htracks⟩ hm
    exact ⟨ho.moves hm, hin.moves he ho hm, Nat.le_trans hlen (length_moves ho hm),
      htracks.moves he hpass (fun i w s hc => hnew _ i w s hlen hc) ho hin hm⟩

end Floor

/-! ## Timers that end a vigil -/

namespace Chime

theorem mem_insert {a c : Chime} {cs : List Chime} : a ∈ insert c cs ↔ a = c ∨ a ∈ cs := by
  unfold insert
  simp only [List.mem_append, List.mem_cons, List.mem_filter]
  cases c.due.before a.due with
  | true => simp
  | false =>
    simp
    tauto

/-- A timer stays set that is not taken back. -/
theorem mem_obey_foldl {c : Chime} {now : Nat} {os : List Order} (hd : .drop c.bell ∉ os)
    {cs : List Chime} (hc : c ∈ cs) : c ∈ os.foldl (obey now) cs := by
  induction os generalizing cs with
  | nil => exact hc
  | cons o os ih =>
    refine ih (fun h => hd (List.mem_cons_of_mem _ h)) ?_
    cases o with
    | cue c' => exact hc
    | worker => exact hc
    | set span b =>
      rw [obey]
      split
      · exact mem_insert.2 (.inr hc)
      · exact hc
    | drop b =>
      refine List.mem_filter.2 ⟨hc, decide_eq_true fun hb => hd ?_⟩
      rw [hb]
      exact List.mem_cons_self

/-- A timer is set that is asked for and not taken back. -/
theorem mem_obey_foldl_set {span : Span} {b : Bell} {now : Nat} {os : List Order}
    (hs : .set span b ∈ os) (hd : .drop b ∉ os) {due : Due} (hdue : span.due now = some due)
    (cs : List Chime) : ⟨due, b⟩ ∈ os.foldl (obey now) cs := by
  induction os generalizing cs with
  | nil => cases hs
  | cons o os ih =>
    have hd' : .drop b ∉ os := fun h => hd (List.mem_cons_of_mem _ h)
    rcases List.mem_cons.1 hs with rfl | hs
    · have hset : ⟨due, b⟩ ∈ obey now cs (.set span b) := by
        simp only [obey, hdue]
        exact mem_insert.2 (.inl rfl)
      rw [List.foldl_cons]
      exact mem_obey_foldl hd' hset
    · exact ih hs hd' _

end Chime

/-- The bell that ends a vigil if nothing else does. -/
def Vigil.bell : Vigil → Bell
  | watching => .timeout
  | preempting => .patience

/-- The body of a job never takes back the timers of its worker. -/
theorem Engine.drop_not_mem_cueTurn (e : Engine) {d : Desk} (hn : d.notes = [])
    (ho : d.orders = [])
    (c : Cue) (vigil : Vigil) : .drop vigil.bell ∉ (e.cueTurn c d).orders := by
  intro h
  rcases e.orders_cueTurn hn ho c h with hof | hof | hof
  · cases vigil <;> cases hof
  · cases hof
  · cases hof

namespace Track

/-- The timer that ends a vigil is set, or has gone off, unless the worker is to have a turn
anyway. -/
def Armed (vigil : Vigil) (due : Due) (k : Track) : Prop :=
  k.lane.call = .idle →
    ⟨due, vigil.bell⟩ ∈ k.chimes ∨ .cue (.bell vigil.bell) ∈ k.lane.items

variable {e : Engine} {k k' : Track} {vigil : Vigil} {due : Due}

/-- The bell of a vigil calls the worker that keeps it. -/
theorem call_bell (e : Engine) {d : Desk} (hp : d.post.vigil? = some vigil) (hc : d.call =
    .idle) :
    (e.cueTurn (.bell vigil.bell) d).call = .called := by
  have hcall : (d.callWorker vigil).call = .called := by
    unfold Desk.callWorker
    rw [if_pos ⟨hp, hc⟩]
    rfl
  cases vigil with
  | watching => exact hcall
  | preempting => exact hcall

/-- A worker that has a turn does not keep its vigil. -/
theorem vigil_workerTurn (e : Engine) {v : Lane} (hp : v.post.vigil? = some vigil) :
    (v.workerTurn e).post.vigil? ≠ some vigil := by
  have hne : v.post ≠ .away := by
    intro h
    rw [h] at hp
    cases hp
  intro hp'
  cases v.served_workerTurn e hne with
  | preempts post reason next results =>
    rw [post] at hp
    rw [next] at hp'
    cases hp
    cases hp'
  | concludes reason next results =>
    rw [next] at hp'
    cases hp'
  | stops post next results =>
    rw [next] at hp'
    cases hp'

/-- What a move does to what the worker does about a flight: nothing, unless it has its turn. -/
theorem Passes.quiet_or_turn (h : k.Passes e k') :
    k'.lane.post = k.lane.post ∧
        (∀ t r, (t, .completed r) ∈ k'.lane.seen → (t, .completed r) ∈ k.lane.seen) ∨
      k.lane.post ≠ .away ∧ ∃ rest, k.lane.ready = .worker :: rest ∧
        k' = (k.pop rest).turn e .worker := by
  cases h with
  | @own i rest ready =>
    rcases (Lane.Passes.own (e := e) ready).quiet_or_turn with hquiet | ⟨hp, rest', hready, -⟩
    · exact .inl hquiet
    · rw [ready] at hready
      obtain ⟨rfl, -⟩ := List.cons.inj hready
      exact .inr ⟨hp, rest, ready, rfl⟩
  | other now canceled =>
    left
    show (k.lane.moveTo _).post = _ ∧ _
    rw [Lane.moveTo_eq]
    exact ⟨rfl, fun _ _ => id⟩
  | cut =>
    left
    refine ⟨k.lane.post_cut, fun t r hr => ?_⟩
    rwa [show k.lane.cut.seen = k.lane.seen from k.lane.seen_cut] at hr
  | round ready now later due => exact .inl ⟨rfl, fun _ _ => id⟩

/-- A turn in the lane does not take the timer back, and does not let its bell pass unheard. -/
theorem Armed.cueTurn (h : k.Armed vigil due) {c : Cue} {rest : List Item}
    (ready : k.lane.ready = .cue c :: rest) (hv : k.lane.post.vigil? = some vigil) :
    ((k.pop rest).turn e (.cue c)).Armed vigil due := by
  intro hidle
  have hturn : ((k.pop rest).turn e (.cue c)).lane =
      (k.pop rest).lane.put (e.cueTurn c (k.pop rest).lane.desk) := rfl
  have hput : ((k.pop rest).turn e (.cue c)).lane.call =
      (e.cueTurn c (k.pop rest).lane.desk).call := by
    rw [hturn, Lane.put_eq]
  rw [hput] at hidle
  have haway : k.lane.post ≠ .away := by
    intro hpost
    rw [hpost] at hv
    cases hv
  have hfits := e.fits_cueTurn (d := (k.pop rest).lane.desk) rfl rfl
    (fun hpost => absurd hpost haway) c
  have hbefore : k.lane.call = .idle := by
    rcases hfits.calls with ⟨-, hsame⟩ | ⟨-, hsame, -⟩
    · exact hsame.symm.trans hidle
    · exact hsame
  rcases h hbefore with hset | hrung
  · exact .inl (Chime.mem_obey_foldl (e.drop_not_mem_cueTurn rfl rfl c vigil) hset)
  · right
    rw [hturn, Lane.items_put]
    refine List.mem_append_left _ ?_
    have hne : Item.cue (.bell vigil.bell) ≠ .cue c := by
      rintro hc
      cases hc
      rw [call_bell e hv hbefore] at hidle
      cases hidle
    simp only [Lane.items, ready, List.cons_append, List.mem_cons, hne, false_or] at hrung
    exact hrung

/-- In the next round the timer is still set, or goes off. -/
theorem Armed.tick (h : k.Armed vigil due) {time : Nat} (ready : k.lane.ready = []) :
    (k.tick time).Armed vigil due := by
  intro hidle
  have hitems : (k.tick time).lane.items = k.lane.items ++
      ((k.chimes.filter fun c => c.due.hasCome time).map Chime.bell).map fun b =>
        .cue (.bell b) := by
    show (k.lane.later ++ _) ++ [] = (k.lane.ready ++ k.lane.later) ++ _
    rw [ready, List.nil_append, List.append_nil]
  rw [hitems]
  rcases h hidle with hset | hrung
  · cases hcome : due.hasCome time with
    | true =>
      have hbell : vigil.bell ∈ (k.chimes.filter fun c => c.due.hasCome time).map Chime.bell :=
        List.mem_map.2 ⟨_, List.mem_filter.2 ⟨hset, hcome⟩, rfl⟩
      exact .inr (List.mem_append_right _ (List.mem_map.2 ⟨_, hbell, rfl⟩))
    | false =>
      left
      exact List.mem_filter.2 ⟨hset, by simp [hcome]⟩
  · exact .inr (List.mem_append_left _ hrung)

/-- **The timer that ends a vigil stays set as long as the vigil lasts.** -/
theorem Armed.passes (h : k.Armed vigil due) (hp : k.Passes e k')
    (hv : k.lane.post.vigil? = some vigil) (hv' : k'.lane.post.vigil? = some vigil) :
    k'.Armed vigil due := by
  cases hp with
  | @own i rest ready =>
    cases i with
    | worker => exact absurd hv' (vigil_workerTurn e hv)
    | cue c => exact h.cueTurn ready hv
  | @other s now canceled =>
    intro hidle
    have hcall : (k.lane.moveTo s).call = k.lane.call := by rw [Lane.moveTo_eq]
    rcases h (hcall.symm.trans hidle) with hset | hrung
    · exact .inl hset
    · right
      rw [Lane.items_moveTo]
      exact List.mem_append_left _ hrung
  | cut =>
    -- A worker that is cut is called.
    intro hidle
    have hne : k.lane.post ≠ .away := by
      intro hpost
      rw [hpost] at hv
      cases hv
    by_cases hcall : k.lane.call = .idle
    · rw [show k.lane.cut = _ from Lane.cut_of_idle hne hcall] at hidle
      cases hidle
    · rw [show k.lane.cut = _ from Lane.cut_of_called hne hcall] at hidle
      cases hidle
  | round ready now later due' => exact h.tick ready

/-- **No time passes beyond the timer that ends a vigil.** -/
theorem Armed.now_le {u : Int} (h : k.Armed vigil (.time u)) (hw : k.lane.Vigilant)
    (hidle : k.lane.post = .away → k.lane.call = .idle) (hp : k.Passes e k') :
    (k'.lane.around.now : Int) ≤ max (k.lane.around.now : Int) u := by
  have hsame : ∀ time, time = k.lane.around.now →
      (time : Int) ≤ max (k.lane.around.now : Int) u := by
    rintro time rfl
    exact Int.le_max_left _ _
  cases hp with
  | @own i rest ready =>
    exact hsame _ (Lane.now_turn e (v := { k.lane with ready := rest }) hidle i)
  | other now canceled =>
    refine hsame _ ?_
    show (k.lane.moveTo _).around.now = _
    rw [Lane.around_moveTo]
    exact now
  | cut => exact hsame _ (congrArg Surroundings.now k.lane.around_cut)
  | @round time ready now later due =>
    have hlater : k.lane.items ≠ [] → k.lane.later ≠ [] := by
      unfold Lane.items
      rw [ready]
      exact id
    by_cases hcall : k.lane.call = .idle
    · rcases h hcall with hset | hrung
      · exact due _ hset u rfl
      · exact hsame _ (later (hlater (List.ne_nil_of_mem hrung)))
    · exact hsame _ (later (hlater (hw.urgent_of_called hcall)))

end Track

end Conveyor
