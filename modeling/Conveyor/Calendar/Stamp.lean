import Conveyor.Calendar.Date

/-!
# Points in time

- `Stamp`: a date, a time of day to the microsecond, and possibly the offset from universal time.
- `Stamp.text`: the written form; the fraction of the second appears only if it is not zero, and
  then with six digits.
- `Stamp.ofMicros`: a count of microseconds in universal time.
- `Offset.check`: offsets stay below a whole day.
-/

namespace Conveyor

open Conveyor.Text

/-- Microseconds in a second. -/
def microsPerSecond : Nat := 1000000

/-- Microseconds in a day. -/
def microsPerDay : Nat := 86400 * microsPerSecond

/-- A point in time. The offset from universal time, if known, is in microseconds. -/
structure Stamp where
  date : Date
  hour : Nat
  minute : Nat
  second : Nat
  micro : Nat
  offset : Option Int
  deriving DecidableEq, Repr, Inhabited

/-- A span of time in the parts in which messages show it: days of any sign, then seconds and
microseconds that are not negative. -/
def spanText (micros : Int) : String :=
  let days := micros.fdiv microsPerDay
  let rest := (micros.fmod microsPerDay).toNat
  let seconds := rest / microsPerSecond
  let us := rest % microsPerSecond
  let parts :=
    (if days = 0 then [] else ["days=" ++ Int.repr days]) ++
    (if seconds = 0 then [] else ["seconds=" ++ Nat.repr seconds]) ++
    (if us = 0 then [] else ["microseconds=" ++ Nat.repr us])
  "datetime.timedelta(" ++ (if parts.isEmpty then "0" else ", ".intercalate parts) ++ ")"

/-- An offset of a day or more. -/
structure OffsetFault where
  micros : Int
  deriving DecidableEq, Repr

/-- What is wrong with an offset. -/
def OffsetFault.message (f : OffsetFault) : String :=
  "offset must be a timedelta strictly between -timedelta(hours=24) and " ++
    "timedelta(hours=24), not " ++ spanText f.micros ++ "."

namespace Offset

/-- An offset stays below a whole day. -/
def check (micros : Int) : Except OffsetFault Int :=
  if micros.natAbs < microsPerDay then .ok micros else .error ⟨micros⟩

/-- The offset as signed hours and minutes, with seconds and their fraction if not zero. -/
def text (micros : Int) : String :=
  let n := micros.natAbs
  let us := n % microsPerSecond
  let s := n / microsPerSecond
  let fine :=
    if us ≠ 0 then ":" ++ zeroPadded 2 (s % 60) ++ "." ++ zeroPadded 6 us
    else if s % 60 ≠ 0 then ":" ++ zeroPadded 2 (s % 60)
    else ""
  (if micros < 0 then "-" else "+") ++ zeroPadded 2 (s / 3600) ++ ":" ++
    zeroPadded 2 (s / 60 % 60) ++ fine

end Offset

namespace Stamp

/-- The first field that is out of range. -/
def check (t : Stamp) : Except DateFault Stamp := do
  let _ ← t.date.check
  if 23 < t.hour then .error .hour
  else if 59 < t.minute then .error .minute
  else if 59 < t.second then .error .second
  else .ok t

/-- The time of day, without a zero fraction. -/
def clockText (t : Stamp) : String :=
  zeroPadded 2 t.hour ++ ":" ++ zeroPadded 2 t.minute ++ ":" ++ zeroPadded 2 t.second ++
    (if t.micro = 0 then "" else "." ++ zeroPadded 6 t.micro)

/-- The date and the time of day with a separator between them, then the offset if known. -/
def textWith (separator : String) (t : Stamp) : String :=
  t.date.text ++ separator ++ t.clockText ++
    (match t.offset with
    | none => ""
    | some o => Offset.text o)

/-- The written form of a point in time. -/
def text (t : Stamp) : String := t.textWith "T"

/-- Microseconds since the start of year 1, in the stamp's own time. -/
def localMicros (t : Stamp) : Nat :=
  (t.date.ordinal * 86400 + t.hour * 3600 + t.minute * 60 + t.second) * microsPerSecond + t.micro

/-- Do two stamps denote the same point in time? One with a known offset never equals one
without. -/
def same (a b : Stamp) : Bool :=
  match a.offset, b.offset with
  | none, none => a == b
  | some o, some p => (a.localMicros : Int) - o == (b.localMicros : Int) - p
  | _, _ => false

/-- The point in universal time that lies the given microseconds after the start of the day
before year 1. -/
def ofMicros (n : Nat) : Stamp :=
  let s := n / microsPerSecond
  let inDay := s % 86400
  { date := Date.ofOrdinal (s / 86400)
    hour := inDay / 3600
    minute := inDay / 60 % 60
    second := inDay % 60
    micro := n % microsPerSecond
    offset := some 0 }

end Stamp

end Conveyor
