import Conveyor.Text.Hex
import Conveyor.Number.Shortest
import Conveyor.Value

/-!
# JSON text

Values as indented JSON in plain ASCII.

- `jsonString`: a text in quotes; what is not printable ASCII is escaped by UTF-16 units.
- `PrintFault`: why something cannot be printed.
- `Value.json`: a value, two blanks deeper for each level. Dates, bytes and sets have no JSON
  text, and neither have integers with too many digits.
-/

namespace Conveyor

open Conveyor.Text

/-- Why something cannot be printed. -/
inductive PrintFault where
  /-- The status of a run is not a text. -/
  | status
  /-- A value cannot stand in a column, or is of a kind that has no JSON text. -/
  | kind
  /-- An integer has too many digits. -/
  | digits
  deriving DecidableEq, Repr

/-- A UTF-16 unit as an escape. -/
def escapeUnit (n : Nat) : List CodePoint := '\\' :: 'u' :: hexText 4 n

/-- A character inside a JSON text. -/
def jsonChar (c : CodePoint) : List CodePoint :=
  let n := c.toNat
  if c = '\"' then ['\\', '\"']
  else if c = '\\' then ['\\', '\\']
  else if 0x20 ≤ n && n ≤ 0x7E then [c]
  else if c = '\n' then ['\\', 'n']
  else if c = '\r' then ['\\', 'r']
  else if c = '\t' then ['\\', 't']
  else if n = 8 then ['\\', 'b']
  else if n = 12 then ['\\', 'f']
  else if n < 0x10000 then escapeUnit n
  else escapeUnit (0xD800 + (n - 0x10000) / 0x400) ++ escapeUnit (0xDC00 + (n - 0x10000) % 0x400)

/-- A text in quotes. -/
def jsonString (s : Text) : Text :=
  Text.ofList (.char '\"' :: s.toList.flatMap jsonChar ++ [CodePoint.char '\"'])

/-- A floating point number. -/
def jsonFloat : Binary64 → Text
  | .nan => "NaN"
  | .infinity negative => if negative then "-Infinity" else "Infinity"
  | x => x.text

/-- An integer that is written out. -/
def writtenInt (i : Int) : Except PrintFault Text :=
  if (Value.int i).isUnwritable then .error .digits else .ok (Int.repr i)

/-- A key, which becomes a text. -/
def jsonKey : Value → Except PrintFault Text
  | .text s => .ok s
  | .int i => writtenInt i
  | .bool b => .ok (if b then "true" else "false")
  | .float x => .ok (jsonFloat x)
  | .null => .ok "null"
  | _ => .error .kind

/-- A line break and the indentation of a level. -/
def jsonBreak (level : Nat) : Text := "\n" ++ Text.ofList (List.replicate (2 * level) ' ')

/-- Items between brackets, each on a line of its own. -/
def jsonBlock (first last : Text) (level : Nat) (items : List Text) : Text :=
  if items.isEmpty then first ++ last
  else
    first ++ jsonBreak (level + 1) ++ joinWith ("," ++ jsonBreak (level + 1)) items ++
      jsonBreak level ++ last

namespace Value

mutual

/-- A value at a level of indentation, if it has a JSON text. -/
def jsonAt (level : Nat) : Value → Except PrintFault Text
  | .null => .ok "null"
  | .bool b => .ok (if b then "true" else "false")
  | .int i => writtenInt i
  | .float x => .ok (jsonFloat x)
  | .text s => .ok (jsonString s)
  | .list items => (jsonItems (level + 1) items).map (jsonBlock "[" "]" level)
  | .map entries => (jsonEntries (level + 1) entries).map (jsonBlock "\x7b" "\x7d" level)
  | _ => .error .kind

/-- The items of a list. -/
def jsonItems (level : Nat) : List Value → Except PrintFault (List Text)
  | [] => .ok []
  | v :: rest => do
    let s ← jsonAt level v
    .ok (s :: (← jsonItems level rest))

/-- The entries of a mapping. -/
def jsonEntries (level : Nat) : List (Value × Value) → Except PrintFault (List Text)
  | [] => .ok []
  | (k, v) :: rest => do
    let key ← jsonKey k
    let s ← jsonAt level v
    .ok ((jsonString key ++ ": " ++ s) :: (← jsonEntries level rest))

end

/-- A value as JSON text. -/
def json (v : Value) : Except PrintFault Text := jsonAt 0 v

end Value

end Conveyor
