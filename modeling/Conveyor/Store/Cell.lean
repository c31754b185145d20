import Conveyor.Store.Numeral
import Conveyor.Value

/-!
# Cells

The values that a table can hold. A column prefers texts or integers and converts what it is
given where nothing is lost by it.

- `Cell`: nothing, an integer of 64 bits, a floating point number, a text.
- `Cell.ofValue`: the cell of a value; an integer that does not fit is refused.
- `Cell.asText`, `Cell.asInteger`: what a column for texts, or for integers, makes of a cell.
-/

namespace Conveyor

/-- A value in a table. -/
inductive Cell where
  | null
  | int (i : Int)
  | real (x : Binary64)
  | text (s : String)
  deriving DecidableEq, Repr

/-- Why the store refuses something. -/
inductive StoreFault where
  /-- There is no such table. -/
  | noTable (name : String)
  /-- A column must be unique. -/
  | unique (column : String)
  /-- A column must not be empty. -/
  | empty (column : String)
  /-- A row refers to one that is not there. -/
  | dangling
  /-- An integer does not fit into 64 bits. -/
  | tooLarge
  /-- A text cannot be written in UTF-8. -/
  | unencodable (text : Text)
  /-- A value of a kind that no cell can hold, at a position from 1. -/
  | unsupported (position : Nat) (type : Text)
  /-- A run without a start. -/
  | noStart
  deriving DecidableEq, Repr

/-- Why the store refuses something, in words. -/
def StoreFault.message : StoreFault → Text
  | noTable name => "no such table: " ++ name
  | unique column => "UNIQUE constraint failed: " ++ column
  | empty column => "NOT NULL constraint failed: " ++ column
  | dangling => "FOREIGN KEY constraint failed"
  | tooLarge => "Python int too large to convert to SQLite INTEGER"
  | unencodable text => text.unencodableMessage
  | unsupported position type =>
    "Error binding parameter " ++ Nat.repr position ++ ": type \x27" ++ type ++
    "\x27 is not supported"
  | noStart => "a run is recorded with the time at which it started"

namespace Cell

/-- Two to the power of 63: the integers that fit into 64 bits lie below. -/
def wordBound : Int := 9223372036854775808

/-- Does an integer fit into 64 bits? -/
def fits (i : Int) : Bool := -wordBound ≤ i && i < wordBound

/-- The cell of a text. -/
def ofText (s : Text) : Except StoreFault Cell :=
  match s.string? with
  | some t => .ok (.text t)
  | none => .error (.unencodable s)

/-- The text of characters is kept as it is. -/
@[simp] theorem ofText_ofString (s : String) : ofText s = .ok (.text s) := by
  rw [ofText, Text.string?_ofString]

theorem ofText_eq_ok {s : Text} {c : Cell} (h : ofText s = .ok c) :
    ∃ t : String, s = t ∧ c = .text t := by
  unfold ofText at h
  split at h
  · next t ht => exact ⟨t, Text.string?_eq_some_iff.1 ht, (Except.ok.inj h).symm⟩
  · cases h

/-- The cell of a value at a position. What is not a number is nothing. -/
def ofValue (position : Nat) : Value → Except StoreFault Cell
  | .null => .ok .null
  | .bool b => .ok (.int (if b then 1 else 0))
  | .int i => if fits i then .ok (.int i) else .error .tooLarge
  | .float .nan => .ok .null
  | .float x => .ok (.real x)
  | .text s => ofText s
  | v => .error (.unsupported position v.typeName)

/-- The cells of some values; the first has the given position. -/
def ofValues : Nat → List Value → Except StoreFault (List Cell)
  | _, [] => .ok []
  | position, v :: rest => do
    let c ← ofValue position v
    .ok (c :: (← ofValues (position + 1) rest))

/-- The value of a cell. -/
def toValue : Cell → Value
  | null => .null
  | int i => .int i
  | real x => .float x
  | text s => .text s

/-- What a column for texts makes of a cell. -/
def asText : Cell → Cell
  | int i => text (Int.repr i)
  | real x => text (realText x)
  | c => c

/-- Space around a number in a text. -/
def isSpace (c : Char) : Bool := c == ' ' || (9 ≤ c.toNat && c.toNat ≤ 13)

/-- A text without the space around it. -/
def trimSpace (cs : List Char) : List Char :=
  ((cs.dropWhile isSpace).reverse.dropWhile isSpace).reverse

/-- The integer that a floating point number is, if it is one within 64 bits. -/
def integral? : Binary64 → Option Int
  | .finite negative m e =>
    let (num, den) := Binary64.ratio m e
    if num % den = 0 then
      let i : Int := if negative then -(num / den : Nat) else (num / den : Nat)
      if -wordBound < i && i < wordBound - 1 then some i else none
    else none
  | _ => none

/-- What a column for integers makes of a floating point number. -/
def realAsInteger (x : Binary64) : Cell :=
  match integral? x with
  | some i => int i
  | none => real x

/-- What a column for integers makes of a text. -/
def textAsInteger (s : String) : Cell :=
  match Numeral.read? (trimSpace s.toList) with
  | none => text s
  | some n =>
    match n.integer?.filter fits with
    | some i => int i
    | none => realAsInteger n.value

/-- What a column for integers makes of a cell. -/
def asInteger : Cell → Cell
  | real x => realAsInteger x
  | text s => textAsInteger s
  | c => c

/-- Do two cells match? Nothing matches nothing. -/
def meets (a b : Cell) : Bool := a ≠ .null && a = b

/-- The order of cells when listed from the last to the first: texts from the greatest down, then
the empty. -/
def notBefore (a b : Cell) : Bool :=
  match a, b with
  | _, .null => true
  | .null, _ => false
  | .text s, .text t => !decide (s.toList < t.toList)
  | _, _ => true

end Cell

end Conveyor
