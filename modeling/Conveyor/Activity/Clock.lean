import Conveyor.Number.Binary64

/-!
# The clock

Activities run on a clock that counts nanoseconds. Limits are given in seconds, as floating point
numbers: they may have no end, be negative, or not be a number at all.

- `nanosPerSecond`, `nanosPerMilli`, `nanosPerMicro`: units.
- `Span`: how long a limit is.
- `Span.ofSeconds`: the limit of a number of seconds.
-/

namespace Conveyor

/-- Nanoseconds in a second. -/
def nanosPerSecond : Nat := 1000000000

/-- Nanoseconds in a millisecond. -/
def nanosPerMilli : Nat := 1000000

/-- Nanoseconds in a microsecond. -/
def nanosPerMicro : Nat := 1000

/-- How long a limit is. -/
inductive Span where
  /-- So many nanoseconds; a limit that is not positive has already passed. -/
  | finite (nanos : Int)
  | endless
  /-- The limit is not a number. -/
  | undefined
  deriving DecidableEq, Repr

/-- The limit of a number of seconds, to the nearest nanosecond. -/
def Span.ofSeconds : Binary64 → Span
  | .nan => .undefined
  | .infinity false => .endless
  | .infinity true => .finite 0
  | .finite negative m e =>
    let (num, den) := Binary64.ratio m e
    let n : Int := (Binary64.roundQuotient (num * nanosPerSecond) den : Nat)
    .finite (if negative then -n else n)

end Conveyor
