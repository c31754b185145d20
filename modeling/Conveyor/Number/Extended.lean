import Conveyor.Number.Binary64

/-!
# Extended floating point numbers

The store computes with floating point numbers of 64 significant bits where it turns numbers into
texts and texts into numbers. Only numbers that are not negative come up, and no exponent gets
out of range.

- `Extended`: a significand below `2 ^ 64` and an exponent.
- `Extended.ofRatio`: the nearest number to a quotient, a half going to the even neighbour.
- `Extended.add`, `.sub`, `.mul`, `.div`: the exact result, rounded once.
- `Extended.ofBinary64`, `Extended.toBinary64`: from and to the shorter format.
- `Extended.powerOfTen`: a power of ten by repeated squaring.
-/

namespace Conveyor

/-- `significand · 2 ^ exponent`. -/
structure Extended where
  significand : Nat
  exponent : Int
  deriving DecidableEq, Repr

namespace Extended

/-- Zero. -/
def zero : Extended := ⟨0, 0⟩

/-- The numerator and denominator of a number. -/
def ratio (x : Extended) : Nat × Nat := Binary64.ratio x.significand x.exponent

/-- The number nearest to a quotient. -/
def ofRatio (num den : Nat) : Extended :=
  if num = 0 then zero
  else
    let e : Int := (num.log2 : Int) - (den.log2 : Int) - 63
    let small : Bool :=
      if 0 ≤ e then num < den * Nat.pow 2 (63 + e.toNat)
      else num * Nat.pow 2 (-e).toNat < den * Nat.pow 2 63
    let e := if small then e - 1 else e
    let m := Binary64.scaled num den e
    if m = Nat.pow 2 64 then ⟨Nat.pow 2 63, e + 1⟩ else ⟨m, e⟩

/-- The number nearest to a natural number. -/
def ofNat (n : Nat) : Extended := ofRatio n 1

/-- The product. -/
def mul (x y : Extended) : Extended :=
  let (a, b) := x.ratio
  let (c, d) := y.ratio
  ofRatio (a * c) (b * d)

/-- The quotient. -/
def div (x y : Extended) : Extended :=
  let (a, b) := x.ratio
  let (c, d) := y.ratio
  ofRatio (a * d) (b * c)

/-- The sum. -/
def add (x y : Extended) : Extended :=
  let (a, b) := x.ratio
  let (c, d) := y.ratio
  ofRatio (a * d + c * b) (b * d)

/-- The difference, of a number and one that is not greater. -/
def sub (x y : Extended) : Extended :=
  let (a, b) := x.ratio
  let (c, d) := y.ratio
  ofRatio (a * d - c * b) (b * d)

/-- Is the first number less than the second? -/
def lt (x y : Extended) : Bool :=
  let (a, b) := x.ratio
  let (c, d) := y.ratio
  a * d < c * b

/-- The greatest natural number that does not exceed the number. -/
def floor (x : Extended) : Nat := x.ratio.1 / x.ratio.2

/-- The same number in the longer format; only a finite number without its sign. -/
def ofBinary64 : Binary64 → Extended
  | .finite _ m e => ofRatio (Binary64.ratio m e).1 (Binary64.ratio m e).2
  | _ => zero

/-- The nearest number in the shorter format. -/
def toBinary64 (x : Extended) : Binary64 := Binary64.ofRatio false x.ratio.1 x.ratio.2

/-- `r · x ^ e`, squaring `x` from bit to bit of `e`. -/
def powerFrom : (fuel : Nat) → (r x : Extended) → (e : Nat) → Extended
  | 0, r, _, _ => r
  | fuel + 1, r, x, e =>
    let r := if e % 2 = 1 then r.mul x else r
    if e / 2 = 0 then r else powerFrom fuel r (x.mul x) (e / 2)

/-- A power of ten. -/
def powerOfTen (e : Nat) : Extended := powerFrom (e + 1) (ofNat 1) (ofNat 10) e

end Extended

end Conveyor
