import Conveyor.Text.Utf8
import Conveyor.Yaml.Cursor

/-!
# The text of a file

A file is decoded in portions of bytes and handed out in blocks of characters. A block that
cannot be decoded, or that holds a character which no YAML text may hold, is noticed only when
reading gets there, so a fault before it comes first.

- `Yaml.Supply`: what is still to be decoded, and what is decoded but not handed out.
- `Yaml.Supply.block`: the next block.
- `Yaml.Excerpt.ofBytes`: the text up to the first block that cannot be read.
-/

namespace Conveyor.Yaml

open Conveyor.Text

/-- Line ends of every system as line feeds. -/
def plainNewlines : List Char → List Char
  | [] => []
  | '\r' :: '\n' :: rest => '\n' :: plainNewlines rest
  | '\r' :: rest => '\n' :: plainNewlines rest
  | c :: rest => c :: plainNewlines rest

/-- The state of decoding a file. -/
structure Supply where
  /-- The bytes not decoded yet. -/
  bytes : List UInt8
  decoder : Utf8.State
  /-- The last portion ended with a carriage return, which may be half of a line end. -/
  held : Bool
  /-- The characters not handed out yet. -/
  ready : List Char
  /-- The numbers of bytes and of characters of the last portion. -/
  last : Nat × Nat
  ended : Bool

namespace Supply

/-- The state before the first byte. -/
def start (bytes : List UInt8) : Supply := ⟨bytes, .start, false, [], (0, 0), false⟩

/-- The least number of bytes in a portion. -/
def leastPortion : Nat := 8192

/-- The number of characters in a block. -/
def blockLength : Nat := 4096

/-- The number of bytes to decode for a number of characters, judged by the last portion. -/
def portionFor (s : Supply) (wanted : Nat) : Nat :=
  let (bytes, chars) := s.last
  max leastPortion (if chars < bytes then bytes * wanted / chars else wanted)

/-- Decode one portion. The end of the file is a portion without bytes. -/
def decodePortion (s : Supply) (wanted : Nat) : Except Fault Supply :=
  let portion := s.bytes.take (s.portionFor wanted)
  let final := portion.isEmpty
  let (decoder, out) := Utf8.run s.decoder portion
  match (if final then out ++ Utf8.flush decoder else out).mapM id with
  | none => .error .notText
  | some cs =>
    let whole := if s.held then '\r' :: cs else cs
    let holds := !final && whole.getLast? = some '\r'
    let text := plainNewlines (if holds then whole.dropLast else whole)
    .ok
      { bytes := s.bytes.drop portion.length
        decoder := decoder
        held := holds
        ready := s.ready ++ text
        last := (portion.length, text.length)
        ended := final }

/-- Decode portions until there are characters for a block or the file ends. -/
def fillWith : Nat → Supply → Except Fault Supply
  | 0, s => .ok s
  | fuel + 1, s =>
    if s.ended || blockLength ≤ s.ready.length then .ok s
    else do fillWith fuel (← s.decodePortion (blockLength - s.ready.length))

/-- The next block; it is empty at the end of the file. -/
def block (s : Supply) : Except Fault (List Char × Supply) := do
  let s ← s.fillWith (s.bytes.length + 2)
  .ok (s.ready.take blockLength, { s with ready := s.ready.drop blockLength })

end Supply

namespace Excerpt

/-- The text of the blocks from here on, after the blocks in `before`, the last of them first. -/
def ofBlocks : Nat → (before : List (List Char)) → Supply → Excerpt
  | 0, before, _ => ⟨before.reverse.flatten, none⟩
  | fuel + 1, before, s =>
    match s.block with
    | .error f => ⟨before.reverse.flatten, some f⟩
    | .ok (cs, s) =>
      if cs.isEmpty then ⟨before.reverse.flatten, none⟩
      else if cs.all isReadable then ofBlocks fuel (cs :: before) s
      else ⟨before.reverse.flatten, some .malformed⟩

/-- The text of a file. Its first two blocks are read at once. -/
def ofBytes (bytes : List UInt8) : Excerpt :=
  let opening : Except Fault (List Char × Supply) := do
    let (first, s) ← (Supply.start bytes).block
    let (second, s) ← s.block
    .ok (first ++ second, s)
  match opening with
  | .error f => ⟨[], some f⟩
  | .ok (cs, s) =>
    if cs.all isReadable then ofBlocks (bytes.length + 1) [cs] s else ⟨[], some .malformed⟩

end Excerpt

end Conveyor.Yaml
