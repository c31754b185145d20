import Conveyor.Calendar.Stamp
import Conveyor.Number.Reading
import Conveyor.Text.Quoted

/-!
# A position in a YAML text

Documents are written in YAML. Its structure depends on columns and lines, so the text is read
through a cursor that counts them.

- `Yaml.Fault`: why a text stands for no value.
- `Yaml.Excerpt`: the part of a text that can be read, and what is wrong with the next block.
- `Yaml.Cursor`: the characters still to be read, and the line and column of the first of them.
- `Yaml.Lexing`: reading from a cursor, with the possibility of a fault. Going as far as the end
  of an excerpt that was cut short is one.
- `Yaml.isReadable`: the characters that a YAML text may hold.
-/

namespace Conveyor.Yaml

/-- Why a text stands for no value. -/
inductive Fault where
  /-- The text breaks a rule of the language, or uses a tag without a meaning. -/
  | malformed
  /-- The bytes are not UTF-8. -/
  | notText
  /-- Nodes are nested too deep, or a scalar stands for itself. -/
  | tooDeep
  /-- An escape names a code point past the last one. -/
  | codePoint
  /-- An escape names a number too large for a code point of any kind. -/
  | hugeCodePoint
  /-- A text is no integer in the base. -/
  | integer (base : Nat) (text : Text)
  /-- A decimal integer has too many digits. -/
  | longInteger (digits : Nat)
  /-- A scalar tagged as a floating point number is none. -/
  | float (text : Text)
  /-- A number without any character. -/
  | emptyNumber
  /-- A number has so many places in base sixty that the last is out of range. -/
  | sixtiesOverflow
  /-- A scalar tagged as a truth value is none. -/
  | truth (word : Text)
  /-- A scalar tagged as a point in time is none. -/
  | timestamp
  /-- A point in time is given by a mapping. -/
  | mappedTimestamp
  /-- A date or time that does not exist. -/
  | date (fault : DateFault)
  /-- An offset of a day or more. -/
  | offset (fault : OffsetFault)
  deriving DecidableEq, Repr

/-- What is wrong with a text, in words; the details of a malformed text are not told. -/
def Fault.message : Fault → Text
  | .malformed => "Invalid YAML"
  | .notText => "not UTF-8"
  | .tooDeep => "maximum recursion depth exceeded"
  | .codePoint => "chr() arg not in range(0x110000)"
  | .hugeCodePoint => "Python int too large to convert to C int"
  | .integer base s =>
    "invalid literal for int() with base " ++ Nat.repr base ++ ": " ++
      Text.ofList ((Text.quoted s).toList.take 200)
  | .longInteger n => tooLongMessage n
  | .float s => "could not convert string to float: " ++ Text.quoted s
  | .emptyNumber => "string index out of range"
  | .sixtiesOverflow => "int too large to convert to float"
  | .truth w => Text.quoted w
  | .timestamp => "\x27NoneType\x27 object has no attribute \x27groupdict\x27"
  | .mappedTimestamp => "expected string or bytes-like object, got \x27list\x27"
  | .date f => f.message
  | .offset f => f.message

/-- The part of a text that can be read. -/
structure Excerpt where
  text : List Char
  /-- What is wrong with the block after it; none if the text ends here. -/
  cut : Option Fault
  deriving Repr

/-- A position in a text. -/
structure Cursor where
  rest : List Char
  index : Nat
  line : Nat
  column : Nat
  /-- The number of characters of the whole text. -/
  length : Nat
  /-- What happens when more than the text is asked for. -/
  cut : Option Fault
  deriving Repr

/-- The start of a text. -/
def Cursor.start (e : Excerpt) : Cursor := ⟨e.text, 0, 0, 0, e.text.length, e.cut⟩

/-- The character that stands for the end of the text. -/
def endMark : Char := '\x00'

/-- May the character occur in a YAML text? -/
def isReadable (c : Char) : Bool :=
  let n := c.toNat
  n == 0x09 || n == 0x0A || n == 0x0D || (0x20 ≤ n && n ≤ 0x7E) || n == 0x85 ||
    (0xA0 ≤ n && n ≤ 0xD7FF) || (0xE000 ≤ n && n ≤ 0xFFFD) || 0x10000 ≤ n

/-- Does a line end with this character? -/
def isBreak (c : Char) : Bool := c == '\n' || c == '\x85' || c == '\u2028' || c == '\u2029'

/-- The end of a line or of the text. -/
def isBreakOrEnd (c : Char) : Bool := isBreak c || c == endMark

/-- A space, or the end of a line or of the text. -/
def isSpaceOrBreak (c : Char) : Bool := c == ' ' || isBreakOrEnd c

/-- A space or tab, or the end of a line or of the text. -/
def isGap (c : Char) : Bool := c == '\t' || isSpaceOrBreak c

namespace Cursor

/-- The character at the cursor. -/
def peek (c : Cursor) : Char := c.rest.headD endMark

/-- The cursor after one character. A byte order mark takes no column. -/
def next (c : Cursor) : Cursor :=
  match c.rest with
  | [] => c
  | ch :: rest =>
    if isBreak ch then
      { c with rest := rest, index := c.index + 1, line := c.line + 1, column := 0 }
    else
      { c with
        rest := rest
        index := c.index + 1
        column := if ch = '\uFEFF' then c.column else c.column + 1 }

/-- The cursor after `n` characters. -/
def skip (c : Cursor) : Nat → Cursor
  | 0 => c
  | n + 1 => c.next.skip n

/-- Enough fuel for reading the text once, character by character. -/
def fuel (c : Cursor) : Nat := c.length + 1

end Cursor

/-- Reading from a cursor. -/
abbrev Lexing (α : Type) := StateT Cursor (Except Fault) α

namespace Lexing

/-- The text has to be known up to the character `k` places after the cursor. -/
def demand (k : Nat) : Lexing Unit := do
  let c ← get
  match c.cut with
  | none => pure ()
  | some f => if (c.rest.drop k).isEmpty then throw f else pure ()

/-- The character at the cursor. -/
def peek : Lexing Char := return (← get).peek

/-- The character `k` places after the cursor. -/
def peekAt (k : Nat) : Lexing Char := do
  demand k
  return (← get).rest.getD k endMark

/-- Go past `n` characters; the one after them has to be known. -/
def skip (n : Nat) : Lexing Unit := do
  demand n
  modify fun c => c.skip n

/-- Go past one character. -/
def next : Lexing Unit := skip 1

/-- The run of characters with a property. -/
def takeWhile (p : Char → Bool) : Lexing (List Char) := do
  let run := (← get).rest.takeWhile p
  skip run.length
  return run

/-- Go past a run of characters with a property. -/
def skipWhile (p : Char → Bool) : Lexing Unit := do
  let _ ← takeWhile p

/-- Is there a document marker (three hyphens or three dots, then a gap) at the cursor? -/
def atMarker : Lexing Bool := do
  demand 2
  match (← get).rest with
  | '-' :: '-' :: '-' :: _ => return isGap (← peekAt 3)
  | '.' :: '.' :: '.' :: _ => return isGap (← peekAt 3)
  | _ => return false

/-- A line end at the cursor, as it counts in a scalar: most of them as a line feed. -/
def lineBreak : Lexing (List Char) := do
  let ch ← peek
  if ch = '\n' || ch = '\x85' then
    next
    return ['\n']
  else if ch = '\u2028' || ch = '\u2029' then
    next
    return [ch]
  else return []

/-- Go past a comment. -/
def skipComment : Lexing Unit := do
  if (← peek) = '#' then skipWhile (fun x => !isBreakOrEnd x)

end Lexing

end Conveyor.Yaml
