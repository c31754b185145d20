import Conveyor.Activity.Stretch

/-!
# Receivers of results

Somebody may want to know of the results of jobs. It is told each of them as it comes, by the
worker that has it, and the worker does not go on before the receiver is done with it. A receiver
may take its time, and it may fail, which is nothing to the worker.

- `Reception`: what a receiver does when it is told a result.
- `Receiver`: a receiver, `Receiver.nobody`: one that does nothing.
- `Reception.Stretch`: what it does in one turn, and where that leaves it.
- `Reception.proceed`: one turn.
-/

namespace Conveyor

/-- What a receiver does when it is told a result. What it remembers, of type `σ`, it shares with
all other receptions, which may have turns while it waits. -/
inductive Reception (σ : Type) where
  /-- It is over. -/
  | finish (ending : Ending Unit)
  /-- Let something be seen. -/
  | note (d : Deed) (next : Reception σ)
  /-- Wait for some nanoseconds; `next true` follows a wait that was cut short. -/
  | wait (span : Nat) (next : Bool → Reception σ)
  /-- Ask for the time. -/
  | clock (next : Nat → Reception σ)
  /-- Ask whether the run is canceled. -/
  | poll (next : Bool → Reception σ)
  /-- Look at what is remembered. -/
  | look (next : σ → Reception σ)
  /-- Remember this instead. -/
  | keep (memory : σ) (next : Reception σ)

/-- A receiver of results. -/
abbrev Receiver (σ : Type) := JobResult → Reception σ

/-- Nobody wants to know. -/
def Receiver.nobody {σ : Type} : Receiver σ := fun _ => .finish (.done ())

namespace Reception

variable {σ : Type}

/-- Where a turn leaves a reception. -/
inductive Rest (σ : Type) where
  | ended (ending : Ending Unit)
  /-- It waits; `next true` follows a wait that was cut short. -/
  | waiting (span : Nat) (next : Bool → Reception σ)

/-- What a reception does in one turn. -/
structure Stretch (σ : Type) where
  notes : List Note
  memory : σ
  rest : Rest σ

/-- Go on from the ending of a reception. -/
def andThen (k : Ending Unit → Reception σ) : Reception σ → Reception σ
  | finish ending => k ending
  | note d next => note d (andThen k next)
  | wait span next => wait span fun cut => andThen k (next cut)
  | clock next => clock fun t => andThen k (next t)
  | poll next => poll fun c => andThen k (next c)
  | look next => look fun m => andThen k (next m)
  | keep m next => keep m (andThen k next)

/-- One turn of a reception, which takes no time. -/
def proceed (s : Surroundings) : Reception σ → σ → Stretch σ
  | finish ending, m => ⟨[], m, .ended ending⟩
  | note d next, m =>
    let t := next.proceed s m
    { t with notes := d.toNote :: t.notes }
  | wait span next, m => ⟨[], m, .waiting span next⟩
  | clock next, m => (next s.now).proceed s m
  | poll next, m => (next s.canceled).proceed s m
  | look next, m => (next m).proceed s m
  | keep m next, _ => next.proceed s m

end Reception

end Conveyor
