import Conveyor.Number.Binary64
import Conveyor.Text.Blank
import Conveyor.Text.DecimalDigit
import Conveyor.Text.Hex

/-!
# Reading numbers

Numbers in settings and documents are read leniently: blanks around them are ignored, digits may
come from any script, and single underscores may stand between digits.

- `readInt?`: an integer in decimal.
- `readIntIn?`: an integer in base two, eight or sixteen, with or without its marker.
- `readFloat?`: a floating point number, including the names of the infinities and of the
  undefined number.
-/

namespace Conveyor

open Conveyor.Text

/-- A blank that may stand around a number: the information separators may not. -/
def isMargin (c : CodePoint) : Bool := isBlank c && !(0x1C ≤ c.toNat && c.toNat ≤ 0x1F)

/-- The text of a number without the blanks around it. -/
def withoutMargins (cs : List CodePoint) : List CodePoint :=
  ((cs.dropWhile isMargin).reverse.dropWhile isMargin).reverse

/-- Digits with single underscores between them; `none` if anything else occurs or no digit
does. `last` tells whether the character before was a digit. -/
def digitsBetween (value? : CodePoint → Option Nat) (base : Nat) :
    (last : Bool) → (acc : Nat) → List CodePoint → Option Nat
  | last, acc, [] => if last then some acc else none
  | last, acc, c :: rest =>
    if c = '_' then if last then digitsBetween value? base false acc rest else none
    else
      match value? c with
      | some v => if v < base then digitsBetween value? base true (acc * base + v) rest else none
      | none => none

/-- The most digits that an integer in decimal may have. -/
def maxDecimalDigits : Nat := 4300

/-- Why a text is no integer. -/
inductive IntegerFault where
  | malformed
  | tooLong (digits : Nat)
  deriving DecidableEq, Repr

/-- The message about an integer with too many digits. -/
def tooLongMessage (digits : Nat) : Text :=
  "Exceeds the limit (" ++ Nat.repr maxDecimalDigits ++
    " digits) for integer string conversion: value has " ++ Nat.repr digits ++
    " digits; use sys.set_int_max_str_digits() to increase the limit"

/-- A sign in front of a number: is it negative, and what follows. -/
def takeSign : List CodePoint → Bool × List CodePoint
  | .char '-' :: rest => (true, rest)
  | .char '+' :: rest => (false, rest)
  | cs => (false, cs)

/-- Is the character a decimal digit or an underscore? -/
def isNumeral (c : CodePoint) : Bool := c == '_' || (digitValue? c).isSome

/-- An integer in decimal. That there are too many digits is found before anything that is wrong
after them. -/
def readInt (s : List CodePoint) : Except IntegerFault Int :=
  let (negative, cs) := takeSign (withoutMargins s)
  let ds := cs.takeWhile isNumeral
  match digitsBetween digitValue? 10 false 0 ds with
  | none => .error .malformed
  | some n =>
    let count := (ds.filter (· ≠ CodePoint.char '_')).length
    if maxDecimalDigits < count then .error (.tooLong count)
    else if ds.length < cs.length then .error .malformed
    else .ok (if negative then -(n : Int) else n)

/-- An integer in decimal, if the text is one. -/
def readInt? (s : List CodePoint) : Option Int := (readInt s).toOption

/-- The value of a digit in any base up to sixteen, ASCII letters included. -/
def digitInBase? (c : CodePoint) : Option Nat := (digitValue? c).orElse fun _ => hexValue? c

/-- The text after a base marker such as `0x`, whose letter comes in either case. -/
def afterMarker (letter : CodePoint) : List CodePoint → List CodePoint
  | z :: c :: rest =>
    if digitValue? z = some 0 && c.toLower = letter then
      (match rest with | .char '_' :: more => more | _ => rest)
    else z :: c :: rest
  | cs => cs

/-- An integer in base two, eight or sixteen. -/
def readIntIn? (base : Nat) (s : List CodePoint) : Option Int :=
  let (negative, ds) := takeSign (withoutMargins s)
  let letter := if base = 2 then 'b' else if base = 8 then 'o' else 'x'
  (digitsBetween digitInBase? base false 0 (afterMarker letter ds)).map fun n =>
    if negative then -(n : Int) else n

/-! ## Floating point numbers -/

/-- A run of digits with single underscores between them, possibly empty: the value, the count
and the rest. An underscore must stand between two digits. -/
def digitRun : (acc count : Nat) → List CodePoint → Nat × Nat × List CodePoint
  | acc, count, [] => (acc, count, [])
  | acc, count, c :: rest =>
    if c = '_' && count != 0 then
      match rest with
      | d :: more =>
        match digitValue? d with
        | some v => digitRun (acc * 10 + v) (count + 1) more
        | none => (acc, count, c :: rest)
      | [] => (acc, count, [c])
    else
      match digitValue? c with
      | some v => digitRun (acc * 10 + v) (count + 1) rest
      | none => (acc, count, c :: rest)

/-- The exponent part of a number, if there is one: `none` for a malformed part. -/
def exponentPart : List CodePoint → Option Int
  | [] => some 0
  | c :: rest =>
    if c = 'e' || c = 'E' then
      let (negative, ds) := takeSign rest
      match digitRun 0 0 ds with
      | (n, count, []) => if count = 0 then none else some (if negative then -(n : Int) else n)
      | _ => none
    else none

/-- An unsigned number in decimal notation. -/
def readUnsigned? (negative : Bool) (cs : List CodePoint) : Option Binary64 :=
  let (whole, wholeCount, rest) := digitRun 0 0 cs
  let (digits, places, rest) :=
    match rest with
    | .char '.' :: more =>
      let (frac, count, rest') := digitRun 0 0 more
      (whole * Nat.pow 10 count + frac, count, rest')
    | _ => (whole, 0, rest)
  if wholeCount + places = 0 then none
  else (exponentPart rest).map fun x => Binary64.ofDecimal negative digits (x - places)

/-- A floating point number: a decimal with an optional fraction and exponent, an infinity or
the undefined number, in any case. -/
def readFloat? (s : List CodePoint) : Option Binary64 :=
  let (negative, cs) := takeSign (withoutMargins s)
  let word := Text.ofList (cs.map CodePoint.toLower)
  if word = "inf" || word = "infinity" then some (.infinity negative)
  else if word = "nan" then some .nan
  else readUnsigned? negative cs

end Conveyor
