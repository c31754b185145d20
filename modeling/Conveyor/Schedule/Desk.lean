import Conveyor.Activity.Stretch
import Conveyor.Schedule.Flight

/-!
# Desks

All that a turn on a job in flight sees and changes: the flight itself, what its worker does
about it, and the surroundings. Nothing of another job is ever on the desk. What the turn lets be
seen and what it asks of the floor is kept until the turn is over.

- `Order`: something that is asked of the floor.
- `Desk`: a flight while someone has a turn on it.
- `Desk.callBody`, `Desk.cutBody`, …: give parties their turns.
- `Desk.absorb`: what a stretch of activity changes.
-/

namespace Conveyor

/-- Something that a turn on a flight asks of the floor. -/
inductive Order where
  /-- A turn on the same flight, in the next round. -/
  | cue (c : Cue)
  /-- A turn of the flight's worker, in the next round. -/
  | worker
  /-- A timer that goes off after a span. -/
  | set (span : Span) (b : Bell)
  /-- No such timer any more. -/
  | drop (b : Bell)
  deriving DecidableEq, Repr

/-- A flight while someone has a turn on it. -/
structure Desk where
  flight : Flight
  post : Post
  /-- Is the worker to have a turn? -/
  call : Call
  around : Surroundings
  /-- What was seen in this turn, in order. -/
  notes : List Note
  /-- What was asked for in this turn, in order. -/
  orders : List Order

/-- The step results among some notes. -/
def recordedAmong : List Note → List StepResult
  | [] => []
  | .recorded r :: rest => r :: recordedAmong rest
  | _ :: rest => recordedAmong rest

namespace Desk

/-- Change the flight. -/
def edit (g : Flight → Flight) (d : Desk) : Desk := { d with flight := g d.flight }

/-- Let something be seen. -/
def see (n : Note) (d : Desk) : Desk := { d with notes := d.notes ++ [n] }

/-- Log a message. -/
def log (level : LogLevel) (message : Text) (d : Desk) : Desk := d.see (.log level message)

/-- Ask for something. -/
def order (o : Order) (d : Desk) : Desk := { d with orders := d.orders ++ [o] }

/-- Ask for a turn in the next round. -/
def push (c : Cue) (d : Desk) : Desk := d.order (.cue c)

/-- Ask for a timer. -/
def setTimer (span : Span) (b : Bell) (d : Desk) : Desk := d.order (.set span b)

/-- Take a timer back. -/
def dropTimer (b : Bell) (d : Desk) : Desk := d.order (.drop b)

/-- Move the job to a new state. -/
def move (target : JobState) (d : Desk) : Desk :=
  (d.see (.moved d.flight.job.id d.flight.state target)).edit fun x => { x with state := target }

/-- Give an idle body a turn. -/
def callBody (d : Desk) : Desk :=
  if d.flight.bodyCall = .idle then (d.edit fun x => { x with bodyCall := .called }).push
    .body else d

/-- Interrupt the body. -/
def cutBody (d : Desk) : Desk :=
  let d' := (d.edit fun x => { x with bodyCall := .cut }).dropTimer .body
  if d.flight.bodyCall = .idle then d'.push .body else d'

/-- Give an idle release a turn. -/
def callRelease (d : Desk) : Desk :=
  if d.flight.releaseCall = .idle then
    (d.edit fun x => { x with releaseCall := .called }).push .release
  else d

/-- Interrupt the release. -/
def cutRelease (d : Desk) : Desk :=
  let d' := (d.edit fun x => { x with releaseCall := .cut }).dropTimer .release
  if d.flight.releaseCall = .idle then d'.push .release else d'

/-- Give an idle worker a turn, if it waits for the job in the given way. -/
def callWorker (vigil : Vigil) (d : Desk) : Desk :=
  if d.post.vigil? = some vigil ∧ d.call = .idle then ({ d with call := .called }).order .worker
  else d

/-- What a stretch of activity changes: its notes are seen, and its step results are kept. -/
def absorb {ν α : Type} (s : Stretch ν α) (d : Desk) : Desk :=
  { d with
    notes := d.notes ++ s.notes
    around := s.around
    flight := { d.flight with steps := d.flight.steps ++ recordedAmong s.notes } }

end Desk

end Conveyor
