import Conveyor.Activity.Note
import Conveyor.Fault
import Conveyor.Output

/-!
# Activities

What the parties of a run do over time: scripts, provisioners, the engine itself. An activity is
a finite tree. It ends, lets something be seen, waits, or asks for something, and then goes on.
The only moments at which it can be interrupted are its waits, and it decides itself how it goes
on after an interruption.

- `Ending`: done, failed, or interrupted.
- `Activity`: the trees, by the kind of notes that they can make.
- `Activity.andThen`: go on from every ending; sequencing, recovery and clean-up are instances.
- `Activity.collect`: keep the texts that an activity writes in a buffer.
-/

namespace Conveyor

/-- How an activity ends. -/
inductive Ending (α : Type) where
  | done (result : α)
  | failed (fault : Fault)
  | interrupted
  deriving Repr

/-- Map the result. -/
def Ending.map {α β : Type} (f : α → β) : Ending α → Ending β
  | .done a => .done (f a)
  | .failed e => .failed e
  | .interrupted => .interrupted

/-- Things that are numbered in the order in which they come up. -/
inductive Counter where
  /-- Names that nothing else has. -/
  | names
  /-- Spawned processes. -/
  | processes
  deriving DecidableEq, Repr

/-- An activity with notes in `ν` and results in `α`. -/
inductive Activity (ν α : Type) where
  /-- It is over. -/
  | finish (ending : Ending α)
  /-- Let something be seen. -/
  | note (n : ν) (next : Activity ν α)
  /-- Wait for some nanoseconds; `next true` follows a wait that was cut short. -/
  | wait (span : Nat) (next : Bool → Activity ν α)
  /-- Ask for the time. -/
  | clock (next : Nat → Activity ν α)
  /-- Ask whether the run is canceled. -/
  | poll (next : Bool → Activity ν α)
  /-- Cancel the run. -/
  | cancel (next : Activity ν α)
  /-- Ask for the next number of a counter. -/
  | draw (counter : Counter) (next : Nat → Activity ν α)

namespace Activity

variable {ν α β : Type}

/-- Go on from the ending of an activity. -/
def andThen (k : Ending α → Activity ν β) : Activity ν α → Activity ν β
  | finish e => k e
  | note n next => note n (andThen k next)
  | wait span next => wait span fun cut => andThen k (next cut)
  | clock next => clock fun t => andThen k (next t)
  | poll next => poll fun b => andThen k (next b)
  | cancel next => cancel (andThen k next)
  | draw c next => draw c fun n => andThen k (next n)

/-- An activity that is over at once. -/
def done (a : α) : Activity ν α := finish (.done a)

/-- An activity that fails at once. -/
def fail (e : Fault) : Activity ν α := finish (.failed e)

/-- An activity that yields to an interruption. -/
def yield : Activity ν α := finish .interrupted

/-- Go on from the result; a failure or an interruption ends the whole. -/
def bind (a : Activity ν α) (f : α → Activity ν β) : Activity ν β :=
  a.andThen fun
    | .done x => f x
    | .failed e => fail e
    | .interrupted => yield

instance : Monad (Activity ν) where
  pure := done
  bind := bind

/-- The ending of an activity, as a result. -/
def attempt (a : Activity ν α) : Activity ν (Ending α) := a.andThen done

/-- Let something be seen. -/
def tell (n : ν) : Activity ν Unit := note n (done ())

/-- Log a message. -/
def log [NoteKind ν] (level : LogLevel) (message : Text) : Activity ν Unit :=
  tell (NoteKind.ofDeed (.log level message))

/-- Wait; an interruption ends the activity. -/
def pause (span : Nat) : Activity ν Unit := wait span fun cut => if cut then yield else done ()

/-- The time. -/
def now : Activity ν Nat := clock done

/-- Is the run canceled? -/
def isCanceled : Activity ν Bool := poll done

/-- The next number of a counter. -/
def next (c : Counter) : Activity ν Nat := draw c done

/-- Keep the texts that an activity writes, together with its ending. -/
def collect (b : OutputBuffer) : Activity Deed α → Activity StepNote (OutputBuffer × Ending α)
  | finish e => done (b, e)
  | note (.wrote text) next => collect (b.write text) next
  | note d next => note (.deed d) (collect b next)
  | wait span next => wait span fun cut => collect b (next cut)
  | clock next => clock fun t => collect b (next t)
  | poll next => poll fun c => collect b (next c)
  | cancel next => cancel (collect b next)
  | draw c next => draw c fun n => collect b (next n)

/-- Going on from an activity that is over is going on. -/
@[simp] theorem andThen_finish (k : Ending α → Activity ν β) (e : Ending α) :
    andThen k (finish e) = k e := rfl

/-- Going on twice is going on once with both continuations. -/
theorem andThen_andThen {γ : Type} (k : Ending α → Activity ν β) (l : Ending β → Activity ν γ)
    (a : Activity ν α) : andThen l (andThen k a) = andThen (fun e => andThen l (k e)) a := by
  induction a with
  | finish e => rfl
  | note n next ih => simp [andThen, ih]
  | wait span next ih => simp [andThen, ih]
  | clock next ih => simp [andThen, ih]
  | poll next ih => simp [andThen, ih]
  | cancel next ih => simp [andThen, ih]
  | draw c next ih => simp [andThen, ih]

end Activity

end Conveyor
