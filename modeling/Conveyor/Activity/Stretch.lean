import Conveyor.Activity.Basic

/-!
# Stretches of activity

Activities that share a clock take turns. In its turn an activity runs up to its next wait, or to
its end, and no time passes meanwhile.

- `Surroundings`: the time, and what all activities share.
- `Stretch`: what an activity does in one turn, and where that leaves it.
- `Activity.proceed`: one turn of an activity.
- `Activity.proceed_now`, `Activity.proceed_canceled`: a turn takes no time, and nothing takes a
  cancellation back.
-/

namespace Conveyor

/-- What an activity finds around it. The time is in nanoseconds. -/
structure Surroundings where
  now : Nat
  /-- Is the run canceled? -/
  canceled : Bool
  /-- How many names have been given. -/
  names : Nat
  /-- How many processes have been spawned. -/
  processes : Nat
  deriving DecidableEq, Repr

/-- The next number of a counter. -/
def Surroundings.draw (s : Surroundings) : Counter → Nat × Surroundings
  | .names => (s.names + 1, { s with names := s.names + 1 })
  | .processes => (s.processes + 1, { s with processes := s.processes + 1 })

/-- Where a turn leaves an activity. -/
inductive Rest (ν α : Type) where
  | ended (ending : Ending α)
  /-- It waits; `next true` follows a wait that was cut short. -/
  | waiting (span : Nat) (next : Bool → Activity ν α)

/-- What an activity does in one turn. -/
structure Stretch (ν α : Type) where
  notes : List Note
  around : Surroundings
  rest : Rest ν α

namespace Activity

variable {ν α : Type} [NoteKind ν]

/-- One turn of an activity. -/
def proceed : Activity ν α → Surroundings → Stretch ν α
  | finish e, s => ⟨[], s, .ended e⟩
  | note n next, s =>
    let t := next.proceed s
    { t with notes := NoteKind.toNote n :: t.notes }
  | wait span next, s => ⟨[], s, .waiting span next⟩
  | clock next, s => (next s.now).proceed s
  | poll next, s => (next s.canceled).proceed s
  | cancel next, s =>
    let t := next.proceed { s with canceled := true }
    { t with notes := .canceled :: t.notes }
  | draw c next, s => (next (s.draw c).1).proceed (s.draw c).2

/-- A turn takes no time. -/
theorem proceed_now (a : Activity ν α) (s : Surroundings) :
    (a.proceed s).around.now = s.now := by
  induction a generalizing s with
  | finish e => rfl
  | note n next ih => simpa [proceed] using ih s
  | wait span next => rfl
  | clock next ih => simpa [proceed] using ih s.now s
  | poll next ih => simpa [proceed] using ih s.canceled s
  | cancel next ih => simpa [proceed] using ih { s with canceled := true }
  | draw c next ih =>
    have h := ih (s.draw c).1 (s.draw c).2
    have hd : (s.draw c).2.now = s.now := by cases c <;> rfl
    rw [hd] at h
    simpa only [proceed] using h

/-- Nothing takes a cancellation back. -/
theorem proceed_canceled (a : Activity ν α) (s : Surroundings) (h : s.canceled = true) :
    (a.proceed s).around.canceled = true := by
  induction a generalizing s with
  | finish e => exact h
  | note n next ih => simpa [proceed] using ih s h
  | wait span next => exact h
  | clock next ih => simpa [proceed] using ih s.now s h
  | poll next ih => simpa [proceed] using ih s.canceled s h
  | cancel next ih => simpa [proceed] using ih { s with canceled := true } rfl
  | draw c next ih =>
    have hd : (s.draw c).2.canceled = true := by cases c <;> exact h
    simpa only [proceed] using ih (s.draw c).1 (s.draw c).2 hd

end Activity

end Conveyor
