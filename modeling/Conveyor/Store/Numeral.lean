import Conveyor.Number.Extended

/-!
# Numbers in texts

How the store reads a number from a text, and how it writes one.

- `Numeral`: the parts of a written number.
- `Numeral.read?`: the numeral of a text, if the text is one.
- `Numeral.value`: its value. Only as many digits count as fit into 63 bits; the rest shifts the
  point. Powers of ten are applied in the extended format.
- `realText`: a number with fifteen significant digits, without zeros at the end.
-/

namespace Conveyor

/-- The parts of a written number. -/
structure Numeral where
  negative : Bool
  whole : List Char
  /-- The digits after the point, if there is one. -/
  fraction : Option (List Char)
  /-- The power of ten, if there is one: whether it is negative, and its digits. -/
  power : Option (Bool × List Char)
  deriving DecidableEq, Repr

namespace Numeral

/-- A sign in front of digits: is it negative, and what follows. -/
def signed : List Char → Bool × List Char
  | '-' :: rest => (true, rest)
  | '+' :: rest => (false, rest)
  | cs => (false, cs)

/-- The power of ten at the end of a number: the outer `none` for anything else there. -/
def power? : List Char → Option (Option (Bool × List Char))
  | [] => some none
  | c :: rest =>
    if c = 'e' || c = 'E' then
      let (negative, ds) := signed rest
      if !ds.isEmpty && ds.all Char.isDigit then some (some (negative, ds)) else none
    else none

/-- The numeral of a text without space around it: digits, with at most one point among them and
a power of ten after them. -/
def read? (cs : List Char) : Option Numeral := do
  let (negative, rest) := signed cs
  let whole := rest.takeWhile Char.isDigit
  let (fraction, rest) := match rest.dropWhile Char.isDigit with
    | '.' :: more => (some (more.takeWhile Char.isDigit), more.dropWhile Char.isDigit)
    | rest => (none, rest)
  let power ← power? rest
  if whole.isEmpty && (fraction.getD []).isEmpty then none
  else some ⟨negative, whole, fraction, power⟩

/-- The greatest integer of 64 bits. -/
def largestWord : Nat := 9223372036854775807

/-- Once the digits come to this, no further ones count. -/
def fullSignificand : Nat := (largestWord - 9) / 10

/-- The value of a digit. -/
def digit (c : Char) : Nat := c.toNat - 48

/-- The digits that count, as a number, and the shift of the point by those that do not. -/
def gatherWhole (acc : Nat × Int) (c : Char) : Nat × Int :=
  if acc.1 < fullSignificand then (acc.1 * 10 + digit c, acc.2) else (acc.1, acc.2 + 1)

/-- The same for a digit after the point. -/
def gatherFraction (acc : Nat × Int) (c : Char) : Nat × Int :=
  if acc.1 < fullSignificand then (acc.1 * 10 + digit c, acc.2 - 1) else acc

/-- The power of ten; beyond ten thousand it does not matter. -/
def powerValue (n : Numeral) : Int :=
  match n.power with
  | none => 0
  | some (negative, ds) =>
    let e : Nat := ds.foldl (fun e c => if e < 10000 then e * 10 + digit c else 10000) 0
    if negative then -(e : Int) else e

/-- A significand and a power of ten, with the power brought as near to zero as it goes. -/
def reduce (up : Bool) : (power : Nat) → (significand : Nat) → Nat × Nat
  | 0, s => (0, s)
  | e + 1, s =>
    if up then if largestWord / 10 ≤ s then (e + 1, s) else reduce up e (s * 10)
    else if s % 10 ≠ 0 then (e + 1, s) else reduce up e (s / 10)

/-- `10 ^ 308`. -/
def hugePower : Binary64 := .ofDecimal false 1 308

/-- The quotient of two finite numbers, rounded once. -/
def quotient : Binary64 → Binary64 → Binary64
  | .finite _ m e, .finite _ n f =>
    let (a, b) := Binary64.ratio m e
    let (c, d) := Binary64.ratio n f
    .ofRatio false (a * d) (b * c)
  | x, _ => x

/-- A significand times or divided by a power of ten. -/
def scale (up : Bool) (power significand : Nat) : Binary64 :=
  if power = 0 then .ofRatio false significand 1
  else if 342 ≤ power then if up then .infinity false else .zero
  else
    let s := Extended.ofNat significand
    let far : Bool := 307 < power
    let t := Extended.powerOfTen (if far then power - 308 else power)
    let x := (if up then s.mul t else s.div t).toBinary64
    if far then if up then x.mul hugePower else quotient x hugePower else x

/-- The value of a numeral. -/
def value (n : Numeral) : Binary64 :=
  let (s, shift) := (n.fraction.getD []).foldl gatherFraction (n.whole.foldl gatherWhole (0, 0))
  let e := n.powerValue + shift
  let up : Bool := 0 ≤ e
  let x : Binary64 :=
    if s = 0 then .zero
    else
      let (power, s) := reduce up e.natAbs s
      scale up power s
  if n.negative then x.neg else x

/-- The integer of a numeral that has neither point nor power. -/
def integer? (n : Numeral) : Option Int :=
  match n.fraction, n.power with
  | none, none =>
    let i : Nat := n.whole.foldl (fun i c => i * 10 + digit c) 0
    some (if n.negative then -(i : Int) else i)
  | _, _ => none

end Numeral

/-! ## Writing -/

namespace RealText

/-- The number of digits after the first significant one. -/
def precision : Nat := 14

/-- The constants of the algorithm, as numbers of the shorter format. -/
def constant (digits : Nat) (power : Int) : Extended :=
  .ofBinary64 (.ofDecimal false digits power)

/-- Half a unit of the last digit. -/
def rounder : Extended :=
  .ofBinary64 ((Binary64.ofDecimal false 5 (-5)).mul (.ofDecimal false 1 (-10)))

/-- Multiply the scale by a step while that leaves it at or below the number; at most 350 powers
of ten. -/
def raise (x step : Extended) (size : Int) : (fuel : Nat) → Extended → Int → Extended × Int
  | 0, scale, e => (scale, e)
  | fuel + 1, scale, e =>
    if !x.lt (step.mul scale) && e ≤ 350 then raise x step size fuel (scale.mul step) (e + size)
    else (scale, e)

/-- Multiply the number by a step while it is below a limit. -/
def lift (limit step : Extended) (size : Int) : (fuel : Nat) → Extended → Int → Extended × Int
  | 0, x, e => (x, e)
  | fuel + 1, x, e =>
    if x.lt limit then lift limit step size fuel (x.mul step) (e - size) else (x, e)

/-- A positive number as one between one and ten, and a power of ten. -/
def normalize (x : Extended) : Extended × Int :=
  let (scale, e) := raise x (constant 1 100) 100 8 (.ofNat 1) 0
  let (scale, e) := raise x (constant 1 10) 10 16 scale e
  let (scale, e) := raise x (.ofNat 10) 1 16 scale e
  let (x, e) := lift (constant 1 (-8)) (constant 1 8) 8 64 (x.div scale) e
  lift (.ofNat 1) (.ofNat 10) 1 16 x e

/-- The first digits of a number below ten; from the 27th on they are zero. -/
def digits : (count budget : Nat) → Extended → List Char
  | 0, _, _ => []
  | count + 1, 0, x => '0' :: digits count 0 x
  | count + 1, budget + 1, x =>
    let d := x.floor
    Char.ofNat (48 + d) :: digits count budget ((x.sub (.ofNat d)).mul (.ofNat 10))

/-- Digits after the point without the zeros at the end; one digit stays. -/
def fraction (ds : List Char) : String :=
  let kept := (ds.reverse.dropWhile (· = '0')).reverse
  if kept.isEmpty then "0" else String.ofList kept

/-- How many digits there are at most. -/
def budget : Nat := 26

/-- The text of a number between one and ten times a power of ten. -/
def layout (x : Extended) (e : Int) : String :=
  if e < -4 || (precision : Int) < e then
    let ds := digits (precision + 1) budget x
    let size := e.natAbs
    String.ofList (ds.take 1) ++ "." ++ fraction (ds.drop 1) ++ "e" ++
      (if e < 0 then "-" else "+") ++ (if size < 10 then "0" else "") ++ Nat.repr size
  else if e < 0 then
    let ds := List.replicate (-e - 1).toNat '0' ++ digits (precision + 1) budget x
    "0." ++ fraction ds
  else
    let ds := digits (precision + 1) budget x
    let whole := e.toNat + 1
    String.ofList (ds.take whole) ++ "." ++ fraction (ds.drop whole)

/-- The text of a positive number. -/
def positive (x : Extended) : String :=
  let (x, e) := normalize x
  let x := x.add rounder
  let (x, e) := if x.lt (.ofNat 10) then (x, e) else (x.mul (constant 1 (-1)), e + 1)
  layout x e

end RealText

/-- The text of a number. -/
def realText : Binary64 → String
  | .nan => ""
  | .infinity negative => if negative then "-Inf" else "Inf"
  | .finite negative m e =>
    if m = 0 then "0.0"
    else (if negative then "-" else "") ++ RealText.positive (.ofBinary64 (.finite false m e))

end Conveyor
