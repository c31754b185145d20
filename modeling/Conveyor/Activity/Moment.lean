import Conveyor.Activity.Basic

/-!
# Running an activity by itself

An activity that has nothing beside it runs on a clock of its own, which moves only while it
waits. It may be interrupted once, at a time that is known in advance.

- `Moment`: the time, the interruption and cancellation to come, the counters.
- `Outcome`: how an activity ended, when, and what was seen of it.
- `Activity.run`: run an activity from a moment.
- `Activity.run_andThen`: running a sequence is running its parts.
-/

namespace Conveyor

/-- The circumstances of an activity. Times are in nanoseconds. -/
structure Moment where
  now : Nat
  /-- When the activity is interrupted. -/
  interruptAt : Option Nat
  /-- Has it been interrupted? -/
  wasCut : Bool
  /-- When the run is canceled. -/
  canceledAt : Option Nat
  /-- How many names have been given. -/
  names : Nat
  /-- How many processes have been spawned. -/
  processes : Nat
  deriving DecidableEq, Repr

/-- The earlier of two times, where `none` is never. -/
def earlier : Option Nat → Option Nat → Option Nat
  | none, b => b
  | a, none => a
  | some a, some b => some (min a b)

namespace Moment

/-- The start of a clock, with nothing to come. -/
def start : Moment :=
  { now := 0
    interruptAt := none
    wasCut := false
    canceledAt := none
    names := 0
    processes := 0 }

/-- Is the run canceled? -/
def isCanceled (m : Moment) : Bool :=
  match m.canceledAt with
  | some t => t ≤ m.now
  | none => false

/-- The time at which a wait is cut short, if it is. -/
def cutTime? (m : Moment) (span : Nat) : Option Nat :=
  if m.wasCut then none
  else
    match m.interruptAt with
    | some t => if t < m.now + span then some (max t m.now) else none
    | none => none

/-- The moment after a wait, and whether the wait was cut short. -/
def afterWait (m : Moment) (span : Nat) : Bool × Moment :=
  match m.cutTime? span with
  | some t => (true, { m with now := t, wasCut := true })
  | none => (false, { m with now := m.now + span })

/-- The run is canceled now. -/
def afterCancel (m : Moment) : Moment :=
  { m with canceledAt := earlier m.canceledAt (some m.now) }

/-- The next number of a counter. -/
def afterDraw (m : Moment) : Counter → Nat × Moment
  | .names => (m.names + 1, { m with names := m.names + 1 })
  | .processes => (m.processes + 1, { m with processes := m.processes + 1 })

/-- Time does not run backwards. -/
theorem le_now_afterWait (m : Moment) (span : Nat) : m.now ≤ (m.afterWait span).2.now := by
  unfold afterWait cutTime?
  split
  · next t h =>
    split at h
    · simp at h
    · split at h
      · split at h
        · simp only [Option.some.injEq] at h
          simp only
          omega
        · simp at h
      · simp at h
  · simp

end Moment

/-- A note with the time at which it was made. -/
abbrev TimedNote := Nat × Note

/-- How an activity ended, when, and what was seen of it. -/
structure Outcome (α : Type) where
  ending : Ending α
  moment : Moment
  notes : List TimedNote
  deriving Repr

namespace Activity

variable {ν α β : Type} [NoteKind ν]

/-- Run an activity. -/
def run : Activity ν α → Moment → Outcome α
  | finish e, m => ⟨e, m, []⟩
  | note n next, m =>
    let o := next.run m
    { o with notes := (m.now, NoteKind.toNote n) :: o.notes }
  | wait span next, m => (next (m.afterWait span).1).run (m.afterWait span).2
  | clock next, m => (next m.now).run m
  | poll next, m => (next m.isCanceled).run m
  | cancel next, m =>
    let o := next.run m.afterCancel
    { o with notes := (m.now, .canceled) :: o.notes }
  | draw c next, m => (next (m.afterDraw c).1).run (m.afterDraw c).2

/-- Running a sequence is running its first part and then the rest. -/
theorem run_andThen (k : Ending α → Activity ν β) (a : Activity ν α) (m : Moment) :
    (andThen k a).run m =
      let o := a.run m
      let p := (k o.ending).run o.moment
      { p with notes := o.notes ++ p.notes } := by
  induction a generalizing m with
  | finish e => simp [andThen, run]
  | note n next ih => simp [andThen, run, ih]
  | wait span next ih => simp [andThen, run, ih]
  | clock next ih => simp [andThen, run, ih]
  | poll next ih => simp [andThen, run, ih]
  | cancel next ih => simp [andThen, run, ih]
  | draw c next ih => simp [andThen, run, ih]

end Activity

end Conveyor
