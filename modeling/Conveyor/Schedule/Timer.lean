import Conveyor.Activity.Basic
import Conveyor.Activity.Clock

/-!
# Timers

Whoever waits for a time sets a timer, and the first timer is the next to go off.

What is said of schedules assumes an order where clocks alone give none. Of timers that are due
at the same time, the one that was set first goes off first. A timer whose time is undefined is
neither before nor after another: it goes off as soon as it is the first, and what is set after
it does not go before it.

- `Bell`: what a timer of a job in flight is for.
- `Alarm`: what a timer is for.
- `Due`: when a timer goes off.
- `Timer.insert`: set a timer.
- `Timer.expired`: the timers that go off at a time, and the others.
-/

namespace Conveyor

/-- What a timer of a job in flight is for. -/
inductive Bell where
  /-- The body has waited long enough. -/
  | body
  /-- The release of the unit has waited long enough. -/
  | release
  /-- The release of the unit takes too long. -/
  | grace
  /-- The job takes too long. -/
  | timeout
  /-- The interrupted job is not waited for any longer. -/
  | patience
  deriving DecidableEq, Repr

/-- What a timer is for. Jobs in flight are numbered. -/
inductive Alarm where
  | flight (number : Nat) (bell : Bell)
  /-- The receiver that a worker tells of a result has waited long enough. -/
  | receiver (worker : Nat)
  /-- Something is to be done from outside. -/
  | errand (act : Activity Deed Unit)
  /-- The whole schedule is stopped. -/
  | stop

/-- Is an alarm this bell of this flight? -/
def Alarm.rings (number : Nat) (bell : Bell) : Alarm → Bool
  | flight f b => f = number && b = bell
  | _ => false

/-- When a timer goes off. -/
inductive Due where
  | time (nanos : Int)
  /-- The time is undefined: it is neither before nor after any other. -/
  | undefined
  deriving DecidableEq, Repr

namespace Due

/-- Is the first time before the second? -/
def before : Due → Due → Bool
  | time t, time u => t < u
  | _, _ => false

/-- Has the time come? An undefined time is never in the future. -/
def hasCome (now : Nat) : Due → Bool
  | time t => t ≤ now
  | undefined => true

end Due

/-- A timer. -/
structure Timer where
  due : Due
  alarm : Alarm

namespace Timer

/-- Set a timer: it goes before those that are due later, and after all others. This is the order
that is assumed of timers that are due at the same time, and of those whose time is undefined. -/
def insert (t : Timer) : List Timer → List Timer
  | [] => [t]
  | u :: rest =>
    if (u :: rest).all fun v => t.due.before v.due then t :: u :: rest else u :: t.insert rest

/-- The timers without those for a bell of a flight. -/
def cancel (number : Nat) (bell : Bell) (timers : List Timer) : List Timer :=
  timers.filter fun t => !t.alarm.rings number bell

/-- The timers that go off at a time, and the others. -/
def expired (now : Nat) (timers : List Timer) : List Timer × List Timer :=
  timers.span fun t => t.due.hasCome now

/-- The time at which the first timer goes off, if nothing happens before. -/
def wakeTime (now : Nat) : List Timer → Nat
  | [] => now
  | t :: _ =>
    match t.due with
    | .time u => max now u.toNat
    | .undefined => now

/-- The clock does not go back. -/
theorem le_wakeTime (now : Nat) (ts : List Timer) : now ≤ wakeTime now ts := by
  unfold wakeTime
  split
  · exact Nat.le_refl now
  · split
    · exact Nat.le_max_left ..
    · exact Nat.le_refl now

end Timer

end Conveyor
