import Conveyor.Schedule.Desk
import Conveyor.Schedule.Reception

/-!
# The floor

Where jobs run. Everybody on the floor takes turns, and nobody is disturbed in a turn. Turns go
in rounds: whoever is called during a round has a turn in the next. Time passes only when nobody
is called: then the clock moves on to the next timer.

- `Turn`: what can happen in one go.
- `Worker`: a worker, and what it is doing.
- `Sighting`: something that was seen on the floor.
- `Floor`: the whole floor.
- `Floor.nextRound`: the next round, if anything is still to happen.
- `Floor.desk?`, `Floor.put`: a flight is taken to a desk for a turn, and put back.
- `Floor.alert`: the run was canceled, and those who watch for that have turns.
-/

namespace Conveyor

/-- One thing that happens in one go. -/
inductive Turn where
  /-- A turn on a flight. -/
  | flight (number : Nat) (cue : Cue)
  | worker (number : Nat)
  /-- The receiver that a worker tells of a result has waited long enough. -/
  | receiver (worker : Nat)
  /-- The scheduler learns that a worker is done. -/
  | workerDone (number : Nat)
  /-- The scheduler goes on. -/
  | scheduler
  /-- Someone outside does something. -/
  | errand (act : Activity Deed Unit)
  /-- The whole schedule is stopped. -/
  | stop

/-- What happens when a timer goes off. -/
def Alarm.turn : Alarm → Turn
  | flight number b => .flight number (.bell b)
  | receiver w => .receiver w
  | errand act => .errand act
  | stop => .stop

/-- What a worker is doing. -/
inductive Duty (σ : Type) where
  | fresh
  | watching (flight : Nat)
  | preempting (flight : Nat) (cause : Cause)
  /-- It tells of the result of a job, and the receiver waits up to some time. -/
  | telling (jobId : Text) (due : Nat) (next : Bool → Reception σ)
  /-- It is done; was it stopped? -/
  | done (stopped : Bool)

section

variable {σ : Type}

/-- Is the worker done? -/
def Duty.isDone : Duty σ → Bool
  | done _ => true
  | _ => false

/-- Was the worker stopped? -/
instance (d : Duty σ) (stopped : Bool) : Decidable (d = .done stopped) :=
  match d with
  | .done b => decidable_of_iff (b = stopped) (by simp)
  | .fresh | .watching _ | .preempting _ _ | .telling _ _ _ => isFalse (by simp)

/-- Has the receiver that the worker tells of a result waited long enough? -/
def Duty.hasWaited (now : Nat) : Duty σ → Bool
  | telling _ due _ => due ≤ now
  | _ => false

/-- What a worker with this duty does about a flight. -/
def Duty.postOn (number : Nat) : Duty σ → Post
  | watching f => if f = number then .watching else .away
  | preempting f cause => if f = number then .preempting cause else .away
  | _ => .away

/-- A worker. -/
structure Worker (σ : Type) where
  duty : Duty σ
  call : Call

/-- What a worker does about a flight, and whether it is to have a turn on it. -/
def Worker.standing (number : Nat) (x : Worker σ) : Post × Call :=
  match x.duty.postOn number with
  | .away => (.away, .idle)
  | post => (post, x.call)

/-- What one of some workers does about a flight, and whether it is to have a turn on it. -/
def standingAmong (workers : List (Worker σ)) (number w : Nat) : Post × Call :=
  ((workers[w]?).map (Worker.standing number)).getD (.away, .idle)

/-- A worker after a turn on a flight that leaves it to do this; a worker that does nothing about
the flight is as it was. -/
def Worker.stand (number : Nat) (post : Post) (call : Call) (x : Worker σ) : Worker σ :=
  match post with
  | .away => x
  | .watching => ⟨.watching number, call⟩
  | .preempting cause => ⟨.preempting number cause, call⟩

end

/-- Something that was seen on the floor, possibly of a job in flight. -/
structure Sighting where
  time : Nat
  flight : Option Nat
  note : Note
  deriving DecidableEq, Repr

/-- The floor. -/
structure Floor (σ : Type) where
  around : Surroundings
  /-- The turns to come in this round. -/
  ready : List Turn
  /-- The turns of the next round. -/
  later : List Turn
  timers : List Timer
  flights : List Flight
  workers : List (Worker σ)
  /-- The jobs that no worker has taken yet. -/
  queue : List JobInstance
  /-- How many workers are known to be done. -/
  doneCount : Nat
  /-- Is the scheduler to go on? -/
  schedulerCall : Call
  /-- Will the scheduler be stopped when it goes on? -/
  doomed : Bool
  /-- Whoever is told of the results. -/
  receiver : Receiver σ
  /-- What the receiver remembers. -/
  memory : σ
  /-- What was seen, the latest first. -/
  seen : List Sighting

/-- A flight after the run was canceled: a watch that waits for that is to have a turn. -/
def Flight.alerted (x : Flight) : Flight :=
  if x.watch = .waiting then { x with watch := .called } else x

namespace Floor

variable {σ : Type}

/-- An empty floor at the start of its clock; nobody is told of results on it. -/
def start (names processes : Nat) (memory : σ) : Floor σ :=
  { around := ⟨0, false, names, processes⟩
    ready := []
    later := []
    timers := []
    flights := []
    workers := []
    queue := []
    doneCount := 0
    schedulerCall := .idle
    doomed := false
    receiver := .nobody
    memory := memory
    seen := [] }

/-- The time. -/
def now (fl : Floor σ) : Nat := fl.around.now

/-- Give someone a turn in the next round. -/
def push (t : Turn) (fl : Floor σ) : Floor σ := { fl with later := fl.later ++ [t] }

/-- Set a timer that goes off after a span, and after those that were set before for the same
time. -/
def setTimer (span : Span) (a : Alarm) (fl : Floor σ) : Floor σ :=
  match span with
  | .finite n => { fl with timers := Timer.insert ⟨.time (fl.now + n), a⟩ fl.timers }
  | .undefined => { fl with timers := Timer.insert ⟨.undefined, a⟩ fl.timers }
  | .endless => fl

/-- Take timers back. -/
def dropTimer (number : Nat) (b : Bell) (fl : Floor σ) : Floor σ :=
  { fl with timers := Timer.cancel number b fl.timers }

/-- Let things be seen. -/
def see (flight : Option Nat) (notes : List Note) (fl : Floor σ) : Floor σ :=
  { fl with seen := (notes.map fun n => ⟨fl.now, flight, n⟩).reverse ++ fl.seen }

/-- Change a worker. -/
def modifyWorker (w : Nat) (g : Worker σ → Worker σ) (fl : Floor σ) : Floor σ :=
  { fl with workers := fl.workers.modify w g }

/-- The next round: those who were called, then the timers that go off. If nobody was called, the
clock moves on first. There is no next round if nothing is left to happen. -/
def nextRound (fl : Floor σ) : Option (Floor σ) :=
  if fl.later.isEmpty && fl.timers.isEmpty then none
  else
    let time := if fl.later.isEmpty then Timer.wakeTime fl.now fl.timers else fl.now
    let (expired, timers) := Timer.expired time fl.timers
    some
      { fl with
        around := { fl.around with now := time }
        ready := fl.later ++ expired.map fun t => t.alarm.turn
        later := []
        timers := timers }

/-- The flights whose watch waits for the cancellation of the run. -/
def watching (fl : Floor σ) : List Nat :=
  (List.range fl.flights.length).filter fun f => (fl.flights[f]?).any fun x => x.watch = .waiting

/-- Everyone who watches for the cancellation has a turn. -/
def alert (fl : Floor σ) : Floor σ :=
  { fl with
    flights := fl.flights.map Flight.alerted
    later := fl.later ++ fl.watching.map fun f => .flight f .watch }

/-- The surroundings are now these; if the run is canceled in them and was not before, those who
watch for that are alerted. -/
def moveTo (s : Surroundings) (fl : Floor σ) : Floor σ :=
  let fl' := { fl with around := s }
  if s.canceled && !fl.around.canceled then fl'.alert else fl'

/-- Take a flight to a desk. -/
def desk? (f : Nat) (fl : Floor σ) : Option Desk :=
  (fl.flights[f]?).map fun x =>
    { flight := x
      post := (standingAmong fl.workers f x.worker).1
      call := (standingAmong fl.workers f x.worker).2
      around := fl.around
      notes := []
      orders := [] }

/-- Do what was asked for at the desk of a flight that a worker took. -/
def obey (f w : Nat) (fl : Floor σ) : Order → Floor σ
  | .cue c => fl.push (.flight f c)
  | .worker => fl.push (.worker w)
  | .set span b => fl.setTimer span (.flight f b)
  | .drop b => fl.dropTimer f b

/-- Put a flight back after a turn, and do what was asked for. -/
def put (f : Nat) (d : Desk) (fl : Floor σ) : Floor σ :=
  let stored : Floor σ :=
    { fl.see (some f) d.notes with
      flights := fl.flights.set f d.flight
      workers := fl.workers.modify d.flight.worker (Worker.stand f d.post d.call) }
  d.orders.foldl (obey f d.flight.worker) (stored.moveTo d.around)

/-- A turn on a flight. -/
def atDesk (f : Nat) (turn : Desk → Desk) (fl : Floor σ) : Floor σ :=
  match fl.desk? f with
  | some d => fl.put f (turn d)
  | none => fl

/-- Interrupt a worker that is not done. -/
def cutWorker (w : Nat) (fl : Floor σ) : Floor σ :=
  match fl.workers[w]? with
  | some worker =>
    if worker.duty.isDone then fl
    else
      let fl' := fl.modifyWorker w fun x => { x with call := .cut }
      if worker.call = .idle then fl'.push (.worker w) else fl'
  | none => fl

/-- A worker whose receiver has waited long enough has a turn. -/
def callTeller (w : Nat) (fl : Floor σ) : Floor σ :=
  match fl.workers[w]? with
  | some worker =>
    if worker.duty.hasWaited fl.now && worker.call = .idle then
      (fl.modifyWorker w fun x => { x with call := .called }).push (.worker w)
    else fl
  | none => fl

/-- Let the scheduler go on. -/
def callScheduler (fl : Floor σ) : Floor σ :=
  if fl.schedulerCall = .idle then ({ fl with schedulerCall := .called }).push .scheduler else fl

/-- What was seen, in order. -/
def sightings (fl : Floor σ) : List Sighting := fl.seen.reverse

/-- The floor with nothing seen yet. -/
def forget (fl : Floor σ) : Floor σ := { fl with seen := [] }

/-- Someone outside does something after a span. -/
def plan (span : Nat) (act : Activity Deed Unit) (fl : Floor σ) : Floor σ :=
  fl.setTimer (.finite span) (.errand act)

/-- Someone outside does something now; what is left of it after its first wait is not done. -/
def disturb (act : Activity Deed Unit) (fl : Floor σ) : Floor σ :=
  let s := act.proceed fl.around
  (fl.see none s.notes).moveTo s.around

end Floor

end Conveyor
