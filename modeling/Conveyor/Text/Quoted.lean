import Conveyor.Text.Hex
import Conveyor.Text.Printable

/-!
# Quoted texts

Messages show a text between quotes, with everything that a terminal could not show as an
escape.

- `quoted`: a text in single quotes; in double quotes when it holds single ones only.
- `quotedBytes`: the same for bytes, with a leading `b`.
- `unencodableMessage`: where the surrogates are for which a text has no bytes.
-/

namespace Conveyor.Text

/-- The quote to put around a text: single, unless the text holds single quotes and no double
ones. -/
def quoteFor (hasSingle hasDouble : Bool) : CodePoint :=
  if hasSingle && !hasDouble then '\x22' else '\x27'

/-- One character between quotes `q`. -/
def quoteChar (q c : CodePoint) : List CodePoint :=
  let n := c.toNat
  if c == q || c == '\x5c' then ['\x5c', c]
  else if c == '\t' then ['\x5c', 't']
  else if c == '\n' then ['\x5c', 'n']
  else if c == '\r' then ['\x5c', 'r']
  else if 0x20 ≤ n && n < 0x7F then [c]
  else if n < 0x80 then '\x5c' :: 'x' :: hexText 2 n
  else if isPrintable c then [c]
  else if n < 0x100 then '\x5c' :: 'x' :: hexText 2 n
  else if n < 0x10000 then '\x5c' :: 'u' :: hexText 4 n
  else '\x5c' :: 'U' :: hexText 8 n

/-- A text between quotes, unprintable characters escaped. -/
def quoted (s : Text) : Text :=
  let cs := s.toList
  let q := quoteFor (cs.contains '\x27') (cs.contains '\x22')
  Text.ofList (q :: cs.flatMap (quoteChar q) ++ [q])

/-- One byte between quotes `q`. -/
def quoteByte (q : CodePoint) (b : UInt8) : List CodePoint :=
  let n := b.toNat
  if n < 0x7F then quoteChar q (CodePoint.ofNat n) else '\x5c' :: 'x' :: hexText 2 n

/-- Bytes between quotes, as their ASCII characters where they have one. -/
def quotedBytes (bs : List UInt8) : Text :=
  let q := quoteFor (bs.contains 0x27) (bs.contains 0x22)
  Text.ofList (.char 'b' :: q :: bs.flatMap (quoteByte q) ++ [q])

/-- The number of code points before the first surrogate that stands by itself. -/
def loneAt (s : Text) : Nat := (s.toList.takeWhile fun c => !c.isLone).length

/-- What is said of a text that has no bytes: where surrogates stand in it first, and one of them
if it is alone. -/
def unencodableMessage (s : Text) : Text :=
  let start := s.loneAt
  let run := (s.toList.drop start).takeWhile CodePoint.isLone
  "\x27utf-8\x27 codec can\x27t encode " ++
    (match run with
      | [c] =>
        "character \x27\\u" ++ Text.ofList (hexText 4 c.toNat) ++ "\x27 in position " ++
          Nat.repr start
      | _ =>
        "characters in position " ++ Nat.repr start ++ "-" ++
          (Nat.repr (start + run.length - 1) : Text)) ++ ": surrogates not allowed"

end Conveyor.Text
