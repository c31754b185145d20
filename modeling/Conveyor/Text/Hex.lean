import Conveyor.Text.Basic

/-!
# Hexadecimal digits

- `hexValue?`: the value of a digit in either case.
- `hexText`: a number with a fixed count of lower-case digits.
-/

namespace Conveyor.Text

/-- The value of an ASCII hexadecimal digit. -/
def hexValue? (c : CodePoint) : Option Nat :=
  let n := c.toNat
  if 0x30 ≤ n && n ≤ 0x39 then some (n - 0x30)
  else if 0x61 ≤ n && n ≤ 0x66 then some (n - 0x61 + 10)
  else if 0x41 ≤ n && n ≤ 0x46 then some (n - 0x41 + 10)
  else none

/-- The lower-case hexadecimal digit of a value below sixteen. -/
def hexDigit (n : Nat) : CodePoint :=
  if n < 10 then CodePoint.ofNat (0x30 + n) else CodePoint.ofNat (0x61 + (n - 10))

/-- A number in lower-case hexadecimal with exactly `width` digits. -/
def hexText : Nat → Nat → List CodePoint
  | 0, _ => []
  | width + 1, n => hexText width (n / 16) ++ [hexDigit (n % 16)]

/-- The bytes written as pairs of hexadecimal digits, if the text is nothing else. -/
def bytesOfHex? : List CodePoint → Option (List UInt8)
  | [] => some []
  | [_] => none
  | a :: b :: rest => do
    let hi ← hexValue? a
    let lo ← hexValue? b
    let more ← bytesOfHex? rest
    some (UInt8.ofNat (16 * hi + lo) :: more)

end Conveyor.Text
