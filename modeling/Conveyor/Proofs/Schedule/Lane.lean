import Conveyor.Activity.Moment
import Conveyor.Proofs.Schedule.Turns
import Conveyor.Schedule.Dispatch

/-!
# Lanes

What a floor looks like from one flight: the flight, what its worker does about it, the turns to
come that concern it, and what was seen of it. A turn that does not concern a flight changes
nothing in its lane, except that the run may be canceled.

- `Item`, `Lane`: a turn to come in a lane, and a lane.
- `Floor.lane?`: the lane of a flight.
- `Lane.put`, `Lane.after`: a turn on the flight, seen from its lane.
- `Floor.Assigned`: a worker has a duty only on a flight that it took.
- `Floor.lane?_put_self`, `Floor.lane?_put_other`: putting a flight back, seen from its own lane
  and from another.
-/

namespace Conveyor

variable {σ : Type}

/-- A turn to come that concerns a flight: of one of its parties, or of its worker. -/
inductive Item where
  | cue (c : Cue)
  | worker
  deriving DecidableEq, Repr

/-- A turn as far as it concerns a flight that worker `w` took, and about which it does
`post`. -/
def Turn.item? (f w : Nat) (post : Post) : Turn → Option Item
  | .flight g c => if g = f then some (.cue c) else none
  | .worker v => if v = w ∧ post ≠ .away then some .worker else none
  | _ => none

/-- What is asked for at a desk, as a turn to come. -/
def Order.item? : Order → Option Item
  | .cue c => some (.cue c)
  | .worker => some .worker
  | _ => none

/-- It does not matter what a worker does about a flight, only whether it does anything. -/
theorem Turn.item?_congr {f w : Nat} {p q : Post} (h : p = .away ↔ q = .away) (t : Turn) :
    t.item? f w p = t.item? f w q := by
  cases t <;> simp [item?, h]

/-- What a floor looks like from one flight. -/
structure Lane where
  flight : Flight
  post : Post
  /-- Is the worker to have a turn on the flight? -/
  call : Call
  around : Surroundings
  ready : List Item
  later : List Item
  /-- What was seen of the flight, in order. -/
  seen : List TimedNote

namespace Lane

/-- What was seen of the flight. -/
def notes (v : Lane) : List Note := v.seen.map Prod.snd

/-- The turns to come. -/
def items (v : Lane) : List Item := v.ready ++ v.later

/-- The flight, taken to a desk. -/
def desk (v : Lane) : Desk :=
  { flight := v.flight
    post := v.post
    call := v.call
    around := v.around
    notes := []
    orders := [] }

/-- One more turn in the next round. -/
def push (i : Item) (v : Lane) : Lane := { v with later := v.later ++ [i] }

/-- Do what was asked for at the desk; timers are not in the lane. -/
def obey (v : Lane) : Order → Lane
  | .cue c => v.push (.cue c)
  | .worker => v.push .worker
  | _ => v

/-- The run was canceled. -/
def alert (v : Lane) : Lane :=
  { v with
    flight := v.flight.alerted
    later := if v.flight.watch = .waiting then v.later ++ [.cue .watch] else v.later }

/-- The surroundings are now these. -/
def moveTo (s : Surroundings) (v : Lane) : Lane :=
  let v' := { v with around := s }
  if s.canceled && !v.around.canceled then v'.alert else v'

/-- Let things be seen. -/
def see (ns : List Note) (v : Lane) : Lane :=
  { v with seen := v.seen ++ ns.map fun n => (v.around.now, n) }

/-- Put the flight back after a turn, and do what was asked for. -/
def put (d : Desk) (v : Lane) : Lane :=
  d.orders.foldl obey
    ({ v.see d.notes with flight := d.flight, post := d.post, call := d.call }.moveTo d.around)

/-- The worker leaves the flight. -/
def retire (v : Lane) : Lane :=
  { v with
    post := .away
    call := .idle
    ready := v.ready.filter fun i => i ≠ .worker
    later := v.later.filter fun i => i ≠ .worker }

/-- A turn of the worker on the flight, after which it goes on. -/
def after (r : Desk × Sequel) (v : Lane) : Lane :=
  match r.2 with
  | .stay => v.put r.1
  | _ => (v.put r.1).retire

/-- The worker is interrupted. -/
def cut (v : Lane) : Lane :=
  if v.post = .away then v
  else if v.call = .idle then ({ v with call := .cut }).push .worker
  else { v with call := .cut }

/-- The next round, in which some timers go off. -/
def tick (time : Nat) (bells : List Bell) (v : Lane) : Lane :=
  { v with
    around := { v.around with now := time }
    ready := v.later ++ bells.map fun b => .cue (.bell b)
    later := [] }

/-- The turns of the worker on the flight. -/
def workerTurn (e : Engine) (v : Lane) : Lane :=
  let cut : Bool := v.call = .cut
  let v' := { v with call := .idle }
  match v.post with
  | .away => v'
  | .watching => v'.after (e.afterWatching cut v'.desk)
  | .preempting cause => v'.after (e.afterPreempting cause cut v'.desk)

/-- One turn in the lane. -/
def turn (e : Engine) (v : Lane) : Item → Lane
  | .cue c => v.put (e.cueTurn c v.desk)
  | .worker => v.workerTurn e

/-! ## What operations leave as it is -/

/-- A worker that is away cannot be interrupted. -/
theorem cut_of_away {v : Lane} (h : v.post = .away) : v.cut = v := if_pos h

theorem cut_of_idle {v : Lane} (h : v.post ≠ .away) (hc : v.call = .idle) :
    v.cut = ({ v with call := .cut }).push .worker := by rw [cut, if_neg h, if_pos hc]

theorem cut_of_called {v : Lane} (h : v.post ≠ .away) (hc : v.call ≠ .idle) :
    v.cut = { v with call := .cut } := by rw [cut, if_neg h, if_neg hc]

/-- Interrupting the worker changes no more than its call and the turns to come. -/
theorem cut_eq (v : Lane) :
    ∃ call items, v.cut = { v with call := call, later := v.later ++ items } ∧
      (v.post = .away → call = v.call) ∧ ∀ i ∈ items, i = .worker := by
  unfold cut
  split
  · exact ⟨v.call, [], by simp, fun _ => rfl, by simp⟩
  · rename_i hpost
    split
    · exact ⟨.cut, [.worker], rfl, fun haway => absurd haway hpost, by simp⟩
    · exact ⟨.cut, [], by simp, fun haway => absurd haway hpost, by simp⟩

theorem post_cut (v : Lane) : v.cut.post = v.post := by
  obtain ⟨call, items, hcut, -⟩ := v.cut_eq
  rw [hcut]

theorem around_cut (v : Lane) : v.cut.around = v.around := by
  obtain ⟨call, items, hcut, -⟩ := v.cut_eq
  rw [hcut]

theorem seen_cut (v : Lane) : v.cut.seen = v.seen := by
  obtain ⟨call, items, hcut, -⟩ := v.cut_eq
  rw [hcut]

theorem moveTo_self (v : Lane) : v.moveTo v.around = v := by
  unfold moveTo
  cases v.around.canceled <;> rfl

/-- Does the watch of a flight hear that the run is now canceled? -/
def Hears (c c' : Bool) (x : Flight) : Prop := c = false ∧ c' = true ∧ x.watch = .waiting

instance (c c' : Bool) (x : Flight) : Decidable (Hears c c' x) :=
  inferInstanceAs (Decidable (_ ∧ _ ∧ _))

/-- A flight in new surroundings. -/
def heard (c c' : Bool) (x : Flight) : Flight :=
  if Hears c c' x then { x with watch := .called } else x

/-- The turns that this calls for. -/
def hearing (c c' : Bool) (x : Flight) : List Item := if Hears c c' x then [.cue .watch] else []

theorem moveTo_eq (s : Surroundings) (v : Lane) :
    v.moveTo s =
      { v with
        around := s
        flight := heard v.around.canceled s.canceled v.flight
        later := v.later ++ hearing v.around.canceled s.canceled v.flight } := by
  unfold moveTo alert Flight.alerted heard hearing Hears
  cases s.canceled with
  | false => simp
  | true =>
    cases v.around.canceled with
    | true => simp
    | false => by_cases hw : v.flight.watch = .waiting <;> simp [hw]

theorem around_moveTo (s : Surroundings) (v : Lane) :
    (v.moveTo s).around = s := by rw [moveTo_eq]

@[simp] theorem worker_heard (c c' : Bool) (x : Flight) : (heard c c' x).worker = x.worker := by
  unfold heard
  split <;> rfl

/-- What is asked for at a desk changes nothing in a lane but the turns to come. -/
theorem obey_foldl (os : List Order) (v : Lane) :
    os.foldl obey v = { v with later := v.later ++ os.filterMap Order.item? } := by
  induction os generalizing v with
  | nil => simp
  | cons o os ih =>
    rw [List.foldl_cons, ih]
    cases o with
    | cue c => simp [obey, push, Order.item?]
    | worker => simp [obey, push, Order.item?]
    | set span b => rfl
    | drop b => rfl

/-- **A flight that is put back after a turn.** -/
theorem put_eq (d : Desk) (v : Lane) :
    v.put d =
      { flight := heard v.around.canceled d.around.canceled d.flight
        post := d.post
        call := d.call
        around := d.around
        ready := v.ready
        later := v.later ++ hearing v.around.canceled d.around.canceled d.flight ++
          d.orders.filterMap Order.item?
        seen := v.seen ++ d.notes.map fun n => (v.around.now, n) } := by
  rw [put, obey_foldl, moveTo_eq]
  rfl

/-- What is asked for at a desk comes after what was to come before. -/
theorem items_put (d : Desk) (v : Lane) :
    (v.put d).items = v.items ++ (hearing v.around.canceled d.around.canceled d.flight ++
      d.orders.filterMap Order.item?) := by
  rw [put_eq]
  simp [items]

@[simp] theorem post_put (d : Desk) (v : Lane) : (v.put d).post = d.post := by rw [put_eq]

@[simp] theorem seen_put (d : Desk) (v : Lane) :
    (v.put d).seen = v.seen ++ d.notes.map fun n => (v.around.now, n) := by rw [put_eq]

theorem worker_put (d : Desk) (v : Lane) : (v.put d).flight.worker = d.flight.worker := by
  rw [put_eq]
  exact worker_heard ..

end Lane

/-- What was seen of a flight, in order, among sightings of which the latest is the first. -/
def seenOf (f : Nat) (seen : List Sighting) : List TimedNote :=
  seen.reverse.filterMap fun s => if s.flight = some f then some (s.time, s.note) else none

theorem seenOf_append (f : Nat) (ss ts : List Sighting) :
    seenOf f (ss ++ ts) = seenOf f ts ++ seenOf f ss := by
  rw [seenOf, List.reverse_append, List.filterMap_append]
  rfl

namespace Floor

/-- The lane of a flight that stands on the floor under this number. -/
def laneOf (f : Nat) (x : Flight) (fl : Floor σ) : Lane :=
  { flight := x
    post := (standingAmong fl.workers f x.worker).1
    call := (standingAmong fl.workers f x.worker).2
    around := fl.around
    ready := fl.ready.filterMap (Turn.item? f x.worker (standingAmong fl.workers f x.worker).1)
    later := fl.later.filterMap (Turn.item? f x.worker (standingAmong fl.workers f x.worker).1)
    seen := seenOf f fl.seen }

/-- The lane of a flight. -/
def lane? (f : Nat) (fl : Floor σ) : Option Lane := (fl.flights[f]?).map fun x => fl.laneOf f x

/-- A worker has a duty only on a flight that it took. -/
def Assigned (fl : Floor σ) : Prop :=
  ∀ f w, (standingAmong fl.workers f w).1 ≠ .away → ∃ x, fl.flights[f]? = some x ∧ x.worker = w

/-! ## Operations on the floor, seen from a lane -/

theorem lane?_eq_some {fl : Floor σ} {f : Nat} {v : Lane} :
    fl.lane? f = some v ↔ ∃ x, fl.flights[f]? = some x ∧ fl.laneOf f x = v := by
  rw [lane?, Option.map_eq_some_iff]

theorem exists_lane_of_lt {fl : Floor σ} {f : Nat} (h : f < fl.flights.length) :
    ∃ v, fl.lane? f = some v :=
  ⟨_, lane?_eq_some.2 ⟨_, List.getElem?_eq_getElem h, rfl⟩⟩

theorem mem_seenOf {f t : Nat} {n : Note} {seen : List Sighting} :
    (t, n) ∈ seenOf f seen ↔ ⟨t, some f, n⟩ ∈ seen := by
  simp only [seenOf, List.mem_filterMap, List.mem_reverse]
  constructor
  · rintro ⟨⟨time, flight, note⟩, hs, heq⟩
    split at heq
    · rename_i hflight
      obtain rfl : flight = some f := hflight
      cases heq
      exact hs
    · cases heq
  · exact fun hs => ⟨_, hs, by simp⟩

/-- What was seen of a flight was seen on the floor. -/
theorem mem_seen_lane {fl : Floor σ} {f t : Nat} {v : Lane} {n : Note} (hv : fl.lane? f =
    some v) :
    (t, n) ∈ v.seen ↔ ⟨t, some f, n⟩ ∈ fl.seen := by
  obtain ⟨x, -, rfl⟩ := lane?_eq_some.1 hv
  exact mem_seenOf

@[simp] theorem seenOf_see_self (f : Nat) (ns : List Note) (fl : Floor σ) :
    seenOf f (fl.see (some f) ns).seen = seenOf f fl.seen ++ ns.map fun n => (fl.now, n) := by
  have hown : ∀ time, seenOf f (ns.map fun n => (⟨time, some f, n⟩ : Sighting)).reverse =
      ns.map fun n => (time, n) := by
    intro time
    rw [seenOf, List.reverse_reverse]
    induction ns with
    | nil => rfl
    | cons n ns ih =>
      rw [List.map_cons, List.map_cons, ← ih]
      exact List.filterMap_cons_some (if_pos rfl)
  rw [see, seenOf_append, hown]

theorem seenOf_see_other {f : Nat} {g : Option Nat} (h : g ≠ some f) (ns : List Note)
    (fl : Floor σ) : seenOf f (fl.see g ns).seen = seenOf f fl.seen := by
  have hnone : ∀ time, seenOf f (ns.map fun n => (⟨time, g, n⟩ : Sighting)).reverse = [] := by
    intro time
    rw [seenOf, List.reverse_reverse, List.filterMap_map]
    exact List.filterMap_eq_nil_iff.2 fun n _ => if_neg h
  rw [see, seenOf_append, hnone, List.append_nil]

/-- A turn that is called concerns a lane or not. -/
theorem laneOf_push (f : Nat) (x : Flight) (t : Turn) (fl : Floor σ) :
    (fl.push t).laneOf f x =
      match t.item? f x.worker (standingAmong fl.workers f x.worker).1 with
      | some i => (fl.laneOf f x).push i
      | none => fl.laneOf f x := by
  cases ht : t.item? f x.worker (standingAmong fl.workers f x.worker).1 with
  | none => simp [laneOf, push, List.filterMap_append, ht]
  | some i => simp [laneOf, push, List.filterMap_append, ht, Lane.push]

@[simp] theorem laneOf_setTimer (f : Nat) (x : Flight) (span : Span) (a : Alarm) (fl : Floor σ) :
    (fl.setTimer span a).laneOf f x = fl.laneOf f x := by
  cases span <;> rfl

@[simp] theorem laneOf_dropTimer (f : Nat) (x : Flight) (g : Nat) (b : Bell) (fl : Floor σ) :
    (fl.dropTimer g b).laneOf f x = fl.laneOf f x := rfl

/-- Of some numbers below a bound, a given one is there once or not at all. -/
theorem filterMap_filter_range {α : Type} (p : Nat → Bool) (f : Nat) (a : α) (n : Nat) :
    ((List.range n).filter p).filterMap (fun g => if g = f then some a else none) =
      if f < n ∧ p f = true then [a] else [] := by
  induction n with
  | zero => simp
  | succ n ih =>
    rw [List.range_succ, List.filter_append, List.filterMap_append, ih]
    by_cases hf : f = n
    · subst hf
      cases hp : p f <;> simp [hp]
    · have hlt : f < n + 1 ↔ f < n := by omega
      cases hp : p n <;> simp [hp, hlt, Ne.symm hf]

/-- Of the watches that have turns, a lane has its own, if that waits. -/
theorem filterMap_watching {f : Nat} {x : Flight} {fl : Floor σ} (hx : fl.flights[f]? = some x)
    (post : Post) :
    (fl.watching.map fun g => Turn.flight g .watch).filterMap (Turn.item? f x.worker post) =
      if x.watch = .waiting then [.cue .watch] else [] := by
  have hlt : f < fl.flights.length := (List.getElem?_eq_some_iff.1 hx).1
  have h := filterMap_filter_range (fun g => (fl.flights[g]?).any fun x => x.watch = .waiting) f
    (Item.cue .watch) fl.flights.length
  rw [hx] at h
  rw [List.filterMap_map, watching]
  simpa [Function.comp_def, Turn.item?, hlt] using h

/-- The cancellation of the run, seen from a lane. -/
theorem laneOf_alert {f : Nat} {x : Flight} {fl : Floor σ} (hx : fl.flights[f]? = some x) :
    fl.alert.laneOf f x.alerted = (fl.laneOf f x).alert := by
  have hw : x.alerted.worker = x.worker := by
    unfold Flight.alerted
    split <;> rfl
  have hl := filterMap_watching hx (standingAmong fl.workers f x.worker).1
  unfold laneOf alert Lane.alert
  simp only [hw, List.filterMap_append, hl]
  split <;> simp

theorem flights_moveTo (f : Nat) (s : Surroundings) (fl : Floor σ) :
    (fl.moveTo s).flights[f]? =
      (fl.flights[f]?).map (if s.canceled && !fl.around.canceled then Flight.alerted else
          id) := by
  unfold moveTo
  dsimp only
  split
  · rw [alert, List.getElem?_map]
  · simp

/-- New surroundings, seen from a lane. -/
theorem lane?_moveTo (f : Nat) (s : Surroundings) (fl : Floor σ) :
    (fl.moveTo s).lane? f = (fl.lane? f).map (Lane.moveTo s) := by
  unfold lane?
  rw [flights_moveTo]
  cases hx : fl.flights[f]? with
  | none => rfl
  | some x =>
    have hlane : { fl with around := s }.laneOf f x = { fl.laneOf f x with around := s } := rfl
    have hx' : { fl with around := s }.flights[f]? = some x := hx
    have halert := laneOf_alert hx'
    rw [hlane] at halert
    simp only [Option.map_some, Option.some.injEq, moveTo, Lane.moveTo]
    show (if _ then _ else _ : Floor σ).laneOf f _ =
      if (s.canceled && !fl.around.canceled) = true then _ else _
    cases s.canceled && !fl.around.canceled with
    | true => exact halert
    | false => exact hlane

/-! ### Standing of workers -/

/-- A worker that does nothing about a flight is not called for it. -/
theorem standingAmong_away {ws : List (Worker σ)} {f w : Nat}
    (h : (standingAmong ws f w).1 = .away) : standingAmong ws f w = (.away, .idle) := by
  unfold standingAmong at h ⊢
  cases hw : ws[w]? with
  | none => rfl
  | some worker =>
    rw [hw] at h
    simp only [Option.map_some, Option.getD_some, Worker.standing] at h ⊢
    split at h
    · rfl
    · rename_i hpost
      exact absurd h hpost

/-- A worker has a duty on one flight at most. -/
theorem standingAmong_other {ws : List (Worker σ)} {f g w : Nat} (hne : g ≠ f)
    (h : (standingAmong ws f w).1 ≠ .away) : standingAmong ws g w = (.away, .idle) := by
  unfold standingAmong at h ⊢
  cases hw : ws[w]? with
  | none => rfl
  | some worker =>
    rw [hw] at h
    simp only [Option.map_some, Option.getD_some, Worker.standing] at h ⊢
    cases hd : worker.duty with
    | fresh => rfl
    | telling jobId due next => rfl
    | done stopped => rfl
    | watching k =>
      rw [hd] at h
      by_cases hk : k = f
      · simp [Duty.postOn, hk, Ne.symm hne]
      · simp [Duty.postOn, hk] at h
    | preempting k cause =>
      rw [hd] at h
      by_cases hk : k = f
      · simp [Duty.postOn, hk, Ne.symm hne]
      · simp [Duty.postOn, hk] at h

theorem standingAmong_modify_other {ws : List (Worker σ)} {f w v : Nat} (hne : v ≠ w)
    (k : Worker σ → Worker σ) : standingAmong (ws.modify v k) f w = standingAmong ws f w := by
  simp [standingAmong, hne]

/-- A worker stands as the turn on the flight left it. -/
theorem standingAmong_stand {ws : List (Worker σ)} {f w : Nat} {post : Post} {call : Call}
    (h : post = .away ↔ (standingAmong ws f w).1 = .away) (hc : post = .away → call = .idle) :
    standingAmong (ws.modify w (Worker.stand f post call)) f w = (post, call) := by
  cases post with
  | away =>
    have hid : (Worker.stand f .away call : Worker σ → Worker σ) = id := rfl
    rw [hid, List.modify_id, standingAmong_away (h.1 rfl), hc rfl]
  | watching =>
    cases hw : ws[w]? with
    | none => exact absurd (h.2 (by simp [standingAmong, hw])) (by simp)
    | some worker => simp [standingAmong, hw, Worker.stand, Worker.standing, Duty.postOn]
  | preempting cause =>
    cases hw : ws[w]? with
    | none => exact absurd (h.2 (by simp [standingAmong, hw])) (by simp)
    | some worker => simp [standingAmong, hw, Worker.stand, Worker.standing, Duty.postOn]

/-- A turn on one flight does not change what workers do about another. -/
theorem standingAmong_stand_other {ws : List (Worker σ)} {f g w v : Nat} {post : Post}
    {call : Call}
    (hne : g ≠ f) (h : post = .away ↔ (standingAmong ws f w).1 = .away) :
    standingAmong (ws.modify w (Worker.stand f post call)) g v = standingAmong ws g v := by
  by_cases hv : w = v
  · subst hv
    by_cases hp : post = .away
    · subst hp
      have hid : (Worker.stand f .away call : Worker σ → Worker σ) = id := rfl
      rw [hid, List.modify_id]
    · have hold : (standingAmong ws f w).1 ≠ .away := fun ha => hp (h.2 ha)
      have hnew : (standingAmong (ws.modify w (Worker.stand f post call)) f w).1 ≠ .away := by
        rw [standingAmong_stand h fun ha => absurd ha hp]
        exact hp
      rw [standingAmong_other hne hold, standingAmong_other hne hnew]
  · exact standingAmong_modify_other hv _

/-! ### Putting a flight back -/

theorem flights_obey (f w : Nat) (fl : Floor σ) (os : List Order) :
    (os.foldl (obey f w) fl).flights = fl.flights ∧ (os.foldl (obey f w) fl).workers =
    fl.workers := by
  induction os generalizing fl with
  | nil => exact ⟨rfl, rfl⟩
  | cons o os ih =>
    have ho : (fl.obey f w o).flights = fl.flights ∧ (fl.obey f w o).workers = fl.workers := by
      cases o with
      | set span b => cases span <;> exact ⟨rfl, rfl⟩
      | cue c => exact ⟨rfl, rfl⟩
      | worker => exact ⟨rfl, rfl⟩
      | drop b => exact ⟨rfl, rfl⟩
    rw [List.foldl_cons, (ih _).1, (ih _).2]
    exact ho

/-- What is asked for at the desk of a flight goes into its own lane. -/
theorem laneOf_obey_self {f : Nat} {x : Flight} {os : List Order} {fl : Floor σ}
    (h : .worker ∈ os → (standingAmong fl.workers f x.worker).1 ≠ .away) :
    (os.foldl (obey f x.worker) fl).laneOf f x = os.foldl Lane.obey (fl.laneOf f x) := by
  induction os generalizing fl with
  | nil => rfl
  | cons o os ih =>
    have ho : (fl.obey f x.worker o).laneOf f x = (fl.laneOf f x).obey o := by
      cases o with
      | cue c => simp [obey, laneOf_push, Turn.item?, Lane.obey]
      | worker => simp [obey, laneOf_push, Turn.item?, Lane.obey, h List.mem_cons_self]
      | set span b => exact laneOf_setTimer f x span _ fl
      | drop b => rfl
    have hw : (fl.obey f x.worker o).workers = fl.workers := (flights_obey f x.worker fl [o]).2
    rw [List.foldl_cons, List.foldl_cons, ← ho]
    refine ih fun hmem => ?_
    rw [hw]
    exact h (List.mem_cons_of_mem o hmem)

/-- What is asked for at the desk of a flight does not go into another lane. -/
theorem laneOf_obey_other {f g w : Nat} {x : Flight} {os : List Order} {fl : Floor σ}
    (hne : g ≠ f)
    (h : .worker ∈ os → x.worker = w → (standingAmong fl.workers g x.worker).1 = .away) :
    (os.foldl (obey f w) fl).laneOf g x = fl.laneOf g x := by
  induction os generalizing fl with
  | nil => rfl
  | cons o os ih =>
    have ho : (fl.obey f w o).laneOf g x = fl.laneOf g x := by
      cases o with
      | cue c => simp [obey, laneOf_push, Turn.item?, Ne.symm hne]
      | worker =>
        have hitem : Turn.item? g x.worker (standingAmong fl.workers g x.worker).1 (.worker w) =
            none := by
          rw [Turn.item?, if_neg]
          exact fun hw => hw.2 (h List.mem_cons_self hw.1.symm)
        rw [obey, laneOf_push, hitem]
      | set span b => exact laneOf_setTimer g x span _ fl
      | drop b => rfl
    have hw : (fl.obey f w o).workers = fl.workers := (flights_obey f w fl [o]).2
    rw [List.foldl_cons, ih, ho]
    intro hmem hx
    rw [hw]
    exact h (List.mem_cons_of_mem o hmem) hx

/-- The floor with a flight put back, before anything that was asked for is done. -/
def stored (f : Nat) (d : Desk) (fl : Floor σ) : Floor σ :=
  { fl.see (some f) d.notes with
    flights := fl.flights.set f d.flight
    workers := fl.workers.modify d.flight.worker (Worker.stand f d.post d.call) }

theorem put_eq (f : Nat) (d : Desk) (fl : Floor σ) :
    fl.put f d = d.orders.foldl (obey f d.flight.worker) ((fl.stored f d).moveTo d.around) := rfl

theorem workers_moveTo (s : Surroundings) (fl : Floor σ) :
    (fl.moveTo s).workers = fl.workers := by
  unfold moveTo
  dsimp only
  split <;> rfl

theorem alerted_worker (x : Flight) : x.alerted.worker = x.worker := by
  unfold Flight.alerted
  split <;> rfl

/-- The worker of a flight is the same in new surroundings. -/
theorem worker_of_moveTo {f : Nat} {s : Surroundings} {fl : Floor σ} {x y : Flight}
    (hx : fl.flights[f]? = some x) (hy : (fl.moveTo s).flights[f]? = some y) :
    y.worker = x.worker := by
  rw [flights_moveTo, hx, Option.map_some] at hy
  rw [← Option.some.inj hy]
  split
  · exact alerted_worker x
  · rfl

/-- **Putting a flight back, seen from its own lane.** -/
theorem lane?_put_self {f : Nat} {fl : Floor σ} {v : Lane} {d : Desk} (hv : fl.lane? f = some v)
    (hd : v.desk.Fits d) : (fl.put f d).lane? f = some (v.put d) := by
  obtain ⟨x, hx, rfl⟩ := lane?_eq_some.1 hv
  have hlt : f < fl.flights.length := (List.getElem?_eq_some_iff.1 hx).1
  have hw : d.flight.worker = x.worker := hd.worker
  have hstand : standingAmong (fl.stored f d).workers f d.flight.worker = (d.post, d.call) := by
    refine standingAmong_stand ?_ hd.call
    rw [hw]
    exact hd.post
  have hget : (fl.stored f d).flights[f]? = some d.flight := by simp [stored, hlt]
  have hstored : (fl.stored f d).lane? f =
      some { (fl.laneOf f x).see d.notes with
        flight := d.flight
        post := d.post
        call := d.call } := by
    have hitem : Turn.item? f x.worker d.post =
        Turn.item? f x.worker (standingAmong fl.workers f x.worker).1 :=
      funext (Turn.item?_congr hd.post)
    refine lane?_eq_some.2 ⟨d.flight, hget, ?_⟩
    have hseen : seenOf f (fl.stored f d).seen = seenOf f fl.seen ++ d.notes.map fun n =>
        (fl.now, n) :=
      seenOf_see_self f d.notes fl
    unfold laneOf
    rw [hstand, hseen, hw, hitem]
    rfl
  -- The floor in its new surroundings, and the flight that then stands on it.
  have hmoved := lane?_moveTo f d.around (fl.stored f d)
  rw [hstored, Option.map_some] at hmoved
  obtain ⟨y, hy, hlane⟩ := lane?_eq_some.1 hmoved
  have hyw : y.worker = d.flight.worker := worker_of_moveTo hget hy
  refine lane?_eq_some.2 ⟨y, ?_, ?_⟩
  · rw [put_eq, (flights_obey f _ _ _).1, hy]
  · rw [put_eq, ← hyw, laneOf_obey_self, hlane, Lane.put]
    intro hmem
    rw [workers_moveTo, hyw, hstand]
    exact hd.orders hmem

/-- **Putting a flight back, seen from another lane**: at most, the run is canceled. -/
theorem lane?_put_other {f g : Nat} {fl : Floor σ} {v : Lane} {d : Desk}
    (hv : fl.lane? f = some v)
    (hd : v.desk.Fits d) (hne : g ≠ f) :
    (fl.put f d).lane? g = (fl.lane? g).map (Lane.moveTo d.around) := by
  obtain ⟨x, hx, rfl⟩ := lane?_eq_some.1 hv
  have hw : d.flight.worker = x.worker := hd.worker
  have hpost : d.post = .away ↔ (standingAmong fl.workers f d.flight.worker).1 = .away := by
    rw [hw]
    exact hd.post
  have hstored : (fl.stored f d).lane? g = fl.lane? g := by
    have hget : (fl.stored f d).flights[g]? = fl.flights[g]? := by
      simp [stored, List.getElem?_set_ne (Ne.symm hne)]
    have hseen : seenOf g (fl.stored f d).seen = seenOf g fl.seen :=
      seenOf_see_other (by simpa using Ne.symm hne) d.notes fl
    unfold lane? laneOf
    rw [hget, hseen]
    have hstand : ∀ y : Flight, standingAmong (fl.stored f d).workers g y.worker =
        standingAmong fl.workers g y.worker := fun y => standingAmong_stand_other hne hpost
    simp only [hstand]
    rfl
  have hmoved := lane?_moveTo g d.around (fl.stored f d)
  rw [hstored] at hmoved
  rw [← hmoved]
  unfold lane?
  rw [put_eq, (flights_obey f _ _ _).1]
  cases hy : ((fl.stored f d).moveTo d.around).flights[g]? with
  | none => rfl
  | some y =>
    rw [Option.map_some, Option.map_some, laneOf_obey_other hne]
    intro hmem hyw
    have hstand : standingAmong (fl.stored f d).workers f d.flight.worker = (d.post, d.call) :=
      standingAmong_stand hpost hd.call
    have haway : (standingAmong (fl.stored f d).workers f d.flight.worker).1 ≠ .away := by
      rw [hstand]
      exact hd.orders hmem
    rw [workers_moveTo, hyw, standingAmong_other hne haway]

end Floor

end Conveyor
