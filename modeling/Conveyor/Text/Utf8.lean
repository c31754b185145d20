import Conveyor.Text.Hex

/-!
# Decoding UTF-8

A decoder that takes one byte at a time, so that it does not matter how a stream of bytes is
cut into chunks. It emits `none` for each maximal ill-formed part of a sequence.

- `Utf8.State`: between characters, or inside one with the bounds on the next byte.
- `Utf8.step`, `Utf8.run`, `Utf8.flush`: one byte, many bytes, the end of the stream.
- `Utf8.run_append`: feeding two chunks is feeding their concatenation.
- `Utf8.decode`: a whole byte string with U+FFFD for every ill-formed part.
- `Utf8.decodeStrict?`: a whole byte string, if all of it is well formed.
- `Utf8.firstFault`: the first ill-formed part, and what is wrong with it.
-/

namespace Conveyor.Text.Utf8

/-- What the decoder remembers between two bytes. -/
inductive State where
  /-- The last character is complete. -/
  | ready
  /-- `left` more bytes are due, the next one within `lo..hi`; `code` holds the bits so far. -/
  | inside (left lo hi code : Nat)
  deriving DecidableEq, Repr

/-- The decoder before the first byte. -/
def State.start : State := .ready

/-- A byte that does not continue a character. -/
def lead (b : Nat) : State × List (Option Char) :=
  if b < 0x80 then (.ready, [some (Char.ofNat b)])
  else if b < 0xC2 then (.ready, [none])
  else if b < 0xE0 then (.inside 1 0x80 0xBF (b - 0xC0), [])
  else if b == 0xE0 then (.inside 2 0xA0 0xBF 0, [])
  else if b == 0xED then (.inside 2 0x80 0x9F 0xD, [])
  else if b < 0xF0 then (.inside 2 0x80 0xBF (b - 0xE0), [])
  else if b == 0xF0 then (.inside 3 0x90 0xBF 0, [])
  else if b < 0xF4 then (.inside 3 0x80 0xBF (b - 0xF0), [])
  else if b == 0xF4 then (.inside 3 0x80 0x8F 4, [])
  else (.ready, [none])

/-- One byte. A byte out of bounds ends the ill-formed part before it and starts afresh. -/
def step : State → UInt8 → State × List (Option Char)
  | .ready, b => lead b.toNat
  | .inside left lo hi code, b =>
    let n := b.toNat
    if lo ≤ n && n ≤ hi then
      let code' := code * 64 + (n - 0x80)
      if left ≤ 1 then (.ready, [some (Char.ofNat code')])
      else (.inside (left - 1) 0x80 0xBF code', [])
    else
      let (s, out) := lead n
      (s, none :: out)

/-- Many bytes. -/
def run : State → List UInt8 → State × List (Option Char)
  | s, [] => (s, [])
  | s, b :: bs =>
    let (s₁, out) := step s b
    let (s₂, more) := run s₁ bs
    (s₂, out ++ more)

/-- The end of the stream: an unfinished character is ill formed. -/
def flush : State → List (Option Char)
  | .ready => []
  | .inside .. => [none]

/-- Feeding two chunks is feeding their concatenation. -/
theorem run_append (s : State) (xs ys : List UInt8) :
    run s (xs ++ ys) =
      ((run (run s xs).1 ys).1, (run s xs).2 ++ (run (run s xs).1 ys).2) := by
  induction xs generalizing s with
  | nil => simp [run]
  | cons b bs ih => simp [run, ih, List.append_assoc]

/-- The replacement character stands for every ill-formed part. -/
def replaceIll (cs : List (Option Char)) : List Char := cs.map fun c => c.getD '\uFFFD'

/-- What was decoded as a part of a text. -/
def shown (cs : List (Option Char)) : List CodePoint := (replaceIll cs).map .char

theorem shown_nil : shown [] = [] := rfl

theorem shown_append (cs ds : List (Option Char)) : shown (cs ++ ds) = shown cs ++ shown ds := by
  rw [shown, replaceIll, List.map_append, List.map_append]
  rfl

/-- The text of a whole byte string, U+FFFD for every ill-formed part. -/
def decode (bs : List UInt8) : List Char :=
  let (s, out) := run .start bs
  replaceIll (out ++ flush s)

/-- The text of a whole byte string, if all of it is well formed. -/
def decodeStrict? (bs : List UInt8) : Option (List Char) :=
  let (s, out) := run .start bs
  (out ++ flush s).mapM id

/-- An ill-formed part of a byte string. -/
structure Fault where
  /-- The position of its first byte. -/
  start : Nat
  /-- The number of its bytes. -/
  length : Nat
  /-- Its first byte. -/
  byte : UInt8
  reason : String
  deriving DecidableEq, Repr

/-- An ill-formed part in words. -/
def Fault.message (f : Fault) : Text :=
  "\x27utf-8\x27 codec can\x27t decode " ++
    (if f.length ≤ 1 then
      "byte 0x" ++ Text.ofList (hexText 2 f.byte.toNat) ++ " in position " ++ Nat.repr f.start
    else
      "bytes in position " ++ Nat.repr f.start ++ "-" ++ Nat.repr (f.start + f.length - 1)) ++
    ": " ++ f.reason

/-- The first ill-formed part of the bytes that follow. `first` is the first byte of an
unfinished character, and `start` its position. -/
def faultFrom (position start : Nat) (first : UInt8) : State → List UInt8 → Option Fault
  | .ready, [] => none
  | .inside .., [] => some ⟨start, position - start, first, "unexpected end of data"⟩
  | .ready, b :: bs =>
    match lead b.toNat with
    | (.ready, [none]) => some ⟨position, 1, b, "invalid start byte"⟩
    | (s, _) => faultFrom (position + 1) position b s bs
  | .inside left lo hi code, b :: bs =>
    if lo ≤ b.toNat && b.toNat ≤ hi then
      faultFrom (position + 1) start first (step (.inside left lo hi code) b).1 bs
    else some ⟨start, position - start, first, "invalid continuation byte"⟩

/-- The first ill-formed part of a byte string. -/
def firstFault (bs : List UInt8) : Option Fault := faultFrom 0 0 0 .start bs

/-- The text of a byte string, or its first ill-formed part. -/
def decodeStrict (bs : List UInt8) : Except Fault (List Char) :=
  match firstFault bs with
  | some fault => .error fault
  | none => .ok (decode bs)

end Conveyor.Text.Utf8
