/-!
# Binary floating point numbers

Time limits and numbers in documents are binary floating point numbers of 64 bits. They are
kept here as what they mean, a significand times a power of two, so that every operation is
exact integer arithmetic followed by one rounding.

- `Binary64`: not a number, an infinity, or `± significand · 2 ^ exponent`.
- `Binary64.ofRatio`: the nearest number to a quotient, a half going to the even neighbour.
- `Binary64.mul`, `Binary64.add`: the exact result, rounded once.
- `Binary64.compareInt`, `Binary64.compare`: order by exact value.
-/

namespace Conveyor

/-- A number of the format. In a finite number the significand is below `2 ^ 53`, the exponent
at least `-1074`, and a significand below `2 ^ 52` has that least exponent. -/
inductive Binary64 where
  | nan
  | infinity (negative : Bool)
  | finite (negative : Bool) (significand : Nat) (exponent : Int)
  deriving DecidableEq, Repr, Inhabited

namespace Binary64

/-- A quotient rounded to an integer, a half going to the even neighbour. -/
def roundQuotient (num den : Nat) : Nat :=
  let q := num / den
  let r := num % den
  if 2 * r < den then q
  else if den < 2 * r then q + 1
  else if q % 2 = 0 then q else q + 1

/-- `num / den / 2 ^ e`, rounded to an integer. -/
def scaled (num den : Nat) (e : Int) : Nat :=
  if 0 ≤ e then roundQuotient num (den * Nat.pow 2 e.toNat)
  else roundQuotient (num * Nat.pow 2 (-e).toNat) den

/-- The least exponent of the format. -/
def leastExponent : Int := -1074

/-- The greatest exponent of the format. -/
def greatestExponent : Int := 971

/-- The exponent at which a positive quotient has a significand of 53 bits, or the least
exponent of the format when that is greater. -/
def exponentFor (num den : Nat) : Int :=
  let e : Int := (num.log2 : Int) - (den.log2 : Int) - 52
  let small : Bool :=
    if 0 ≤ e then num < den * Nat.pow 2 (52 + e.toNat)
    else num * Nat.pow 2 (-e).toNat < den * Nat.pow 2 52
  max leastExponent (if small then e - 1 else e)

/-- The number nearest to `num / den`; past the greatest finite number, an infinity. -/
def ofRatio (negative : Bool) (num den : Nat) : Binary64 :=
  if num = 0 then .finite negative 0 leastExponent
  else
    let e := exponentFor num den
    let m := scaled num den e
    let (m, e) := if m = Nat.pow 2 53 then (Nat.pow 2 52, e + 1) else (m, e)
    if greatestExponent < e then .infinity negative else .finite negative m e

/-- The number nearest to an integer. -/
def ofInt (i : Int) : Binary64 := ofRatio (decide (i < 0)) i.natAbs 1

/-- The number nearest to an integer, if that is finite. -/
def ofInt? (i : Int) : Option Binary64 :=
  match ofInt i with
  | .infinity _ => none
  | x => some x

/-- The number nearest to `digits · 10 ^ exponent`. Powers of ten far outside the format are
decided by their size alone. -/
def ofDecimal (negative : Bool) (digits : Nat) (exponent : Int) : Binary64 :=
  if digits = 0 then .finite negative 0 leastExponent
  else
    let size : Int := (digits.log2 : Int) * 3 / 10 + exponent
    if 400 < size then .infinity negative
    else if size < -800 then .finite negative 0 leastExponent
    else if 0 ≤ exponent then ofRatio negative (digits * Nat.pow 10 exponent.toNat) 1
    else ofRatio negative digits (Nat.pow 10 (-exponent).toNat)

/-- Zero. -/
def zero : Binary64 := .finite false 0 leastExponent

/-- The numerator and denominator of `m · 2 ^ e`. -/
def ratio (m : Nat) (e : Int) : Nat × Nat :=
  if 0 ≤ e then (m * Nat.pow 2 e.toNat, 1) else (m, Nat.pow 2 (-e).toNat)

/-- The product, rounded once. -/
def mul : Binary64 → Binary64 → Binary64
  | .nan, _ => .nan
  | _, .nan => .nan
  | .infinity s, .infinity t => .infinity (s != t)
  | .infinity s, .finite t m _ => if m = 0 then .nan else .infinity (s != t)
  | .finite s m _, .infinity t => if m = 0 then .nan else .infinity (s != t)
  | .finite s m e, .finite t n f =>
    let (num, den) := ratio (m * n) (e + f)
    ofRatio (s != t) num den

/-- A signed quotient rounded to a number; an exact zero takes the sign `zeroSign`. -/
def ofSigned (zeroSign : Bool) (num : Int) (den : Nat) : Binary64 :=
  if num = 0 then .finite zeroSign 0 leastExponent
  else ofRatio (decide (num < 0)) num.natAbs den

/-- The exact value of `± m · 2 ^ e` as a multiple of `2 ^ f`, for `f ≤ e`. -/
def inUnits (negative : Bool) (m : Nat) (e f : Int) : Int :=
  let n : Int := (m * Nat.pow 2 (e - f).toNat : Nat)
  if negative then -n else n

/-- The sum, rounded once. -/
def add : Binary64 → Binary64 → Binary64
  | .nan, _ => .nan
  | _, .nan => .nan
  | .infinity s, .infinity t => if s = t then .infinity s else .nan
  | .infinity s, .finite .. => .infinity s
  | .finite .., .infinity t => .infinity t
  | .finite s m e, .finite t n f =>
    let g := min e f
    let total := inUnits s m e g + inUnits t n f g
    let (num, den) := ratio total.natAbs g
    ofSigned (s && t) (if total < 0 then -(num : Int) else num) den

/-- The number with the opposite sign. -/
def neg : Binary64 → Binary64
  | .nan => .nan
  | .infinity s => .infinity (!s)
  | .finite s m e => .finite (!s) m e

/-- Does the number differ from zero? An undefined number does. -/
def isNonzero : Binary64 → Bool
  | .finite _ m _ => m != 0
  | _ => true

/-- The order between a number and an integer by exact value; `none` for an undefined number. -/
def compareInt : Binary64 → Int → Option Ordering
  | .nan, _ => none
  | .infinity s, _ => some (if s then .lt else .gt)
  | .finite s m e, i =>
    let g := min e 0
    some (compareOfLessAndEq (inUnits s m e g) (inUnits (decide (i < 0)) i.natAbs 0 g))

/-- The order between two numbers by exact value; `none` if either is undefined. -/
def compare : Binary64 → Binary64 → Option Ordering
  | .nan, _ => none
  | _, .nan => none
  | .infinity s, .infinity t =>
    some (if s = t then .eq else if s then .lt else .gt)
  | .infinity s, .finite .. => some (if s then .lt else .gt)
  | .finite .., .infinity t => some (if t then .gt else .lt)
  | .finite s m e, .finite t n f =>
    let g := min e f
    some (compareOfLessAndEq (inUnits s m e g) (inUnits t n f g))

/-- Is the number zero or negative? An undefined number is not. -/
def isNonPositive (x : Binary64) : Bool :=
  x.compareInt 0 == some .lt || x.compareInt 0 == some .eq

end Binary64

end Conveyor
