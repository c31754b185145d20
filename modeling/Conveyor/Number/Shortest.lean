import Conveyor.Number.Binary64

/-!
# The shortest decimal of a number

The fewest decimal digits that identify a binary number, found by exact arithmetic: on the grid
of one digit, then of two, and so on, the two neighbours of the number are tried; the first grid
with a neighbour that rounds back to the number wins, and of two such neighbours the nearer.

- `Decimal`: `digits · 10 ^ exponent`.
- `Binary64.shortest`: the shortest decimal of `m · 2 ^ e`.
- `Binary64.text` writes it positionally from `10 ^ -4` up to, and
  excluding, `10 ^ 16`, and otherwise with a signed exponent of at least two digits.
-/

namespace Conveyor

/-- The decimal `digits · 10 ^ exponent`. -/
structure Decimal where
  digits : Nat
  exponent : Int
  deriving DecidableEq, Repr

namespace Binary64

/-- `a · 10 ^ i` as a quotient. -/
def decimalRatio (a : Nat) (i : Int) : Nat × Nat :=
  if 0 ≤ i then (a * Nat.pow 10 i.toNat, 1) else (a, Nat.pow 10 (-i).toNat)

/-- Does the decimal round to the positive number `m · 2 ^ e`? -/
def readsBack (m : Nat) (e : Int) (d : Decimal) : Bool :=
  let (num, den) := decimalRatio d.digits d.exponent
  ofRatio false num den == .finite false m e

/-- The least `k` with `num / den < 10 ^ k`, searched upwards from `k`. -/
def magnitudeFrom (num den : Nat) : Nat → Int → Int
  | 0, k => k
  | fuel + 1, k =>
    let (a, b) := decimalRatio 1 k
    if num * b < a * den then k else magnitudeFrom num den fuel (k + 1)

/-- The number of digits before the decimal point of a positive quotient; negative when there
are zeros behind the point. -/
def magnitude (num den : Nat) : Int :=
  let bits : Int := (num.log2 : Int) - (den.log2 : Int)
  magnitudeFrom num den 8 ((bits - 1) * 30103 / 100000 - 1)

/-- The neighbours of `num / den` on the grid `10 ^ g` that read back, the nearer first; a tie
goes to the even one. -/
def hits (m : Nat) (e : Int) (num den : Nat) (g : Int) : List Decimal :=
  let (a, b) := decimalRatio 1 g
  -- num / den in units of a / b
  let n := num * b
  let d := den * a
  let lo := n / d
  let near : List Nat :=
    if n % d = 0 then [lo]
    else if 2 * (n % d) < d ∨ (2 * (n % d) = d ∧ lo % 2 = 0) then [lo, lo + 1] else [lo + 1, lo]
  (near.map fun x => (⟨x, g⟩ : Decimal)).filter (readsBack m e)

/-- Search the grids from `n` digits on. -/
def shortestFrom (m : Nat) (e : Int) (num den : Nat) (k : Int) : Nat → Nat → Decimal
  | 0, _ => ⟨num * Nat.pow 5 den.log2, -(den.log2 : Int)⟩
  | fuel + 1, n =>
    match hits m e num den (k - n) with
    | d :: _ => d
    | [] => shortestFrom m e num den k fuel (n + 1)

/-- Move trailing zeros of the digits into the exponent. -/
def stripZeros : Nat → Decimal → Decimal
  | 0, d => d
  | fuel + 1, d =>
    if d.digits ≠ 0 ∧ d.digits % 10 = 0 then stripZeros fuel ⟨d.digits / 10, d.exponent + 1⟩ else
    d

/-- The shortest decimal of the positive number `m · 2 ^ e`. -/
def shortest (m : Nat) (e : Int) : Decimal :=
  let (num, den) := ratio m e
  stripZeros 400 (shortestFrom m e num den (magnitude num den) 17 1)

/-- Lay out a decimal: positionally while the leading digit stands for `10 ^ -4` up to
`10 ^ 15`, otherwise with an exponent. An integral value keeps `.0`. -/
def layout (d : Decimal) : List Char :=
  let ds := (Nat.repr d.digits).toList
  -- the point stands after `point` digits
  let point : Int := ds.length + d.exponent
  if -4 < point && point ≤ 16 then
    if point ≤ 0 then
      '0' :: '.' :: List.replicate (-point).toNat '0' ++ ds
    else if (ds.length : Int) ≤ point then
      ds ++ List.replicate (point - ds.length).toNat '0' ++ ['.', '0']
    else ds.take point.toNat ++ '.' :: ds.drop point.toNat
  else
    let x := point - 1
    let xs := (Nat.repr x.natAbs).toList
    let xs := if xs.length < 2 then '0' :: xs else xs
    let sign := if x < 0 then '-' else '+'
    let body := match ds with
      | [] => []
      | [c] => [c]
      | c :: rest => c :: '.' :: rest
    body ++ 'e' :: sign :: xs

/-- The text of a number: the fewest digits that identify it. -/
def text : Binary64 → String
  | .nan => "nan"
  | .infinity negative => if negative then "-inf" else "inf"
  | .finite negative m e =>
    let body := if m = 0 then ['0', '.', '0'] else layout (shortest m e)
    String.ofList (if negative then '-' :: body else body)

end Binary64

end Conveyor
