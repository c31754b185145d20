import Conveyor.Schedule.Dispatch

/-!
# Waiting for a reception

Somebody who schedules nothing may wait until a reception is over. Meanwhile everybody else on
the floor goes on: jobs that an earlier schedule has abandoned, and whatever is planned.

- `Floor.occupied`: somebody stands on the floor; `Floor.pause`: and waits, for a while or only
  for the next turn.
- `Engine.await`: wait until a reception is over.
-/

namespace Conveyor

variable {σ : Type}

namespace Floor

/-- Somebody stands on the floor in the place of the first worker, and there is no crew. -/
def occupied (fl : Floor σ) : Floor σ :=
  { fl with
    workers := [⟨.fresh, .idle⟩]
    queue := []
    doneCount := 0
    schedulerCall := .idle
    doomed := false }

/-- Somebody waits on a floor without a crew. -/
def pause (span : Nat) (next : Bool → Reception σ) (fl : Floor σ) : Floor σ :=
  Engine.attend 0 "" span next fl.occupied

/-- Was whoever waits in the place of the first worker interrupted? -/
def isCut (fl : Floor σ) : Bool := (fl.workers[0]?).any fun x => x.call = .cut

end Floor

/-- Wait until a reception is over, and hear how it ended. There is no answer if it never is. -/
def Engine.await (e : Engine) : Reception σ → Floor σ → Option (Ending Unit × Floor σ)
  | .finish ending, fl => some (ending, fl)
  | .note d next, fl => e.await next (fl.see none [d.toNote])
  | .wait span next, fl =>
    match e.advance (Turn.isWorker 0) (fl.pause span next) with
    | some fl' => e.await (next fl'.isCut) fl'
    | none => none
  | .clock next, fl => e.await (next fl.now) fl
  | .poll next, fl => e.await (next fl.around.canceled) fl
  | .look next, fl => e.await (next fl.memory) fl
  | .keep m next, fl => e.await next { fl with memory := m }

end Conveyor
