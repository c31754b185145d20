import Conveyor.Calendar.Stamp
import Conveyor.Text.Quoted

/-!
# Reading points in time

The written forms of a point in time: a date as `YYYY-MM-DD`, `YYYYMMDD` or by week, any single
character, then hours with optional minutes, seconds and fraction, and an optional offset. The
form is read byte by byte, since its columns are counted in bytes.

- `Iso.Cursor`: the bytes still to be read.
- `Iso.separatorAt`: the column at which the date ends.
- `Iso.readDate`, `Iso.readClock`: the two halves.
- `Stamp.read`: the whole, with the fault that a malformed text has.
-/

namespace Conveyor

/-- Why a text is no point in time. -/
inductive StampFault where
  | malformed (text : Text)
  | offset (fault : OffsetFault)
  | field (fault : DateFault)
  deriving DecidableEq, Repr

/-- What is wrong with a point in time. -/
def StampFault.message : StampFault → Text
  | .malformed s => "Invalid isoformat string: " ++ Text.quoted s
  | .offset f => f.message
  | .field f => f.message

namespace Iso

/-- The value of an ASCII digit. -/
def digit? (b : UInt8) : Option Nat :=
  if 0x30 ≤ b && b ≤ 0x39 then some (b.toNat - 0x30) else none

/-- Exactly `count` digits: their value and the rest. -/
def digits? : (count : Nat) → (acc : Nat) → List UInt8 → Option (Nat × List UInt8)
  | 0, acc, bs => some (acc, bs)
  | _ + 1, _, [] => none
  | count + 1, acc, b :: bs =>
    match digit? b with
    | some d => digits? count (acc * 10 + d) bs
    | none => none

/-- The byte in a column, and 0 past the end. -/
def byteAt (bs : List UInt8) (i : Nat) : UInt8 := bs.getD i 0

/-- Is there a digit in the column? -/
def digitAt (bs : List UInt8) (i : Nat) : Bool := (digit? (byteAt bs i)).isSome

/-- The column at which the date ends. A date by week may have a day or not; digits in a row
after the week belong to the time when that leaves it an even number of them. -/
def separatorAt (bs : List UInt8) : Option Nat :=
  let len := bs.length
  if len = 7 then some 7
  else if byteAt bs 4 = 0x2D then
    if byteAt bs 5 = 0x57 then
      if len < 8 then none
      else if 8 < len && byteAt bs 8 = 0x2D then
        if len = 9 then none
        else if 10 < len && digitAt bs 10 then some 8
        else some 10
      else some 8
    else some 10
  else if byteAt bs 4 = 0x57 then
    let pos := 7 + ((bs.drop 7).takeWhile fun b => (digit? b).isSome).length
    if pos < 9 then some pos else if pos % 2 = 0 then some 7 else some 8
  else some 8

/-- The date in the first `len` bytes. -/
def readDate (bs : List UInt8) (len : Nat) : Option Date := do
  let (year, rest) ← digits? 4 0 bs
  let dashed := rest.head? == some 0x2D
  let rest := if dashed then rest.drop 1 else rest
  if rest.head? == some 0x57 then
    let (week, rest) ← digits? 2 0 (rest.drop 1)
    if bs.length - rest.length < len then
      if dashed && rest.head? != some 0x2D then none
      else
        let (day, _) ← digits? 1 0 (if dashed then rest.drop 1 else rest)
        Date.ofWeek? year week day
    else Date.ofWeek? year week 1
  else
    let (month, rest) ← digits? 2 0 rest
    if dashed && rest.head? != some 0x2D then none
    else
      let (day, _) ← digits? 2 0 (if dashed then rest.drop 1 else rest)
      some ⟨year, month, day⟩

/-- Hours, minutes, seconds and microseconds. -/
structure Clock where
  hour : Nat
  minute : Nat
  second : Nat
  micro : Nat
  deriving DecidableEq, Repr

/-- Does something follow? The null byte ends a text where nothing more is expected. -/
def follows (bs : List UInt8) : Bool := bs.headD 0 != 0

/-- The fraction of a second: up to six digits count, further ones are skipped. `room` is the
number of bytes up to the end of the time. Tells also whether something follows. -/
def readFraction (room : Nat) (bs : List UInt8) : Option (Nat × Bool) := do
  let count := min room 6
  let (n, rest) ← digits? count 0 bs
  let rest := rest.dropWhile fun b => (digit? b).isSome
  some (n * Nat.pow 10 (6 - count), follows rest)

/-- The fields of a time from the `n`-th (hours, minutes, seconds) on. `room` is the number of
bytes that belong to the time; the bytes after those are visible but not part of it. The result
tells also whether a byte was left over. -/
def readFields (colons : Bool) : (fields : Nat) → (first : Bool) → (room : Nat) →
    (acc : List Nat) → List UInt8 → Option (List Nat × Nat × Bool)
  | 0, _, room, acc, bs => do
    let (us, more) ← readFraction room bs
    some (acc.reverse, us, more)
  | fields + 1, first, room, acc, bs => do
    let (v, rest) ← digits? 2 0 bs
    let c := rest.headD 0
    let colons := if first then c == 0x3A else colons
    let acc := v :: acc
    if room ≤ 3 then some (acc.reverse, 0, follows rest)
    else if colons && c == 0x3A then readFields colons fields false (room - 3) acc (rest.drop 1)
    else if c == 0x2E || c == 0x2C then
      let (us, more) ← readFraction (room - 3) (rest.drop 1)
      some (acc.reverse, us, more)
    else if !colons then readFields colons fields false (room - 2) acc rest
    else none

/-- A time of day in the first `room` bytes, and whether a byte was left over. -/
def readTime (room : Nat) (bs : List UInt8) : Option (Clock × Bool) := do
  let (vs, us, more) ← readFields true 3 true room [] bs
  some (⟨vs.getD 0 0, vs.getD 1 0, vs.getD 2 0, us⟩, more)

/-- Does an offset start with this byte? -/
def startsOffset (b : UInt8) : Bool := b == 0x2B || b == 0x2D || b == 0x5A

/-- A time of day with an optional offset in microseconds. -/
def readClock (bs : List UInt8) : Option (Clock × Option Int) := do
  let room := (bs.takeWhile fun b => !startsOffset b).length
  let zone := bs.drop room
  let (clock, more) ← readTime room bs
  match zone with
  | [] => if more then none else some (clock, none)
  | sign :: rest =>
    if sign = 0x5A then if follows rest then none else some (clock, some 0)
    else
      let (o, more) ← readTime rest.length rest
      if more then none
      else
        let micros : Int :=
          ((o.hour * 3600 + o.minute * 60 + o.second) * microsPerSecond + o.micro : Nat)
        some (clock, some (if sign = 0x2D then -micros else micros))

/-- The number of bytes of the character that starts with this byte. -/
def charWidth (b : UInt8) : Nat :=
  if b < 0x80 then 1 else if b &&& 0xF0 = 0xE0 then 3 else if b &&& 0xF0 = 0xF0 then 4 else 2

/-- The two halves of a written point in time; without the second one, midnight. -/
def readParts (bs : List UInt8) : Option (Date × Clock × Option Int) := do
  if bs.length < 7 then none
  else
    let sep ← separatorAt bs
    let date ← readDate bs sep
    if sep < bs.length then
      let width := charWidth (byteAt bs sep)
      let (clock, offset) ← readClock (bs.drop (sep + width))
      some (date, clock, offset)
    else some (date, ⟨0, 0, 0, 0⟩, none)

end Iso

/-- The columns in which date and time may be kept apart. -/
def Iso.separators : List Nat := [7, 8, 10]

/-- Any code point may keep date and time apart. A surrogate that does so is taken for a
letter. -/
def Iso.plainSeparator (s : Text) : Text :=
  match separators.find? fun i => (s.toList[i]?).any CodePoint.isLone with
  | some i => ⟨s.toList.set i 'T'⟩
  | none => s

@[simp] theorem Iso.plainSeparator_ofString (s : String) :
    plainSeparator (.ofString s) = .ofString s := by
  have hnone : (separators.find? fun i =>
      ((Text.ofString s).toList[i]?).any CodePoint.isLone) = none := by
    refine List.find?_eq_none.2 fun i _ => ?_
    have hget : (Text.ofString s).toList[i]? = s.toList[i]?.map .char := List.getElem?_map ..
    rw [hget]
    cases s.toList[i]? <;> exact Bool.false_ne_true
  rw [plainSeparator, hnone]

/-- Read a point in time. A well-formed text may still name an offset, a day or an hour that does
not exist. -/
def Stamp.read (s : Text) : Except StampFault Stamp :=
  match (Iso.plainSeparator s).utf8?.bind Iso.readParts with
  | none => .error (.malformed s)
  | some (date, clock, offset) => do
    match offset with
    | some o => let _ ← (Offset.check o).mapError .offset
    | none => pure ()
    (Stamp.check ⟨date, clock.hour, clock.minute, clock.second, clock.micro, offset⟩).mapError
      .field

end Conveyor
