import Conveyor.Text.Column

/-!
# Fresh names

Runs and containers get names that nothing else has: the numbers of a counter, written as version
4 identifiers.
-/

namespace Conveyor

/-- The `n`-th name that nothing else has. -/
def freshName (n : Nat) : Text := "00000000-0000-4000-8000-" ++ Text.zeroPadded 12 n

end Conveyor
