import Conveyor.Value

/-!
# The order of a set

A set keeps its elements in a table with more places than elements. The place of a number follows
from the number, and when it is taken, from a fixed sequence of other places; the set is shown in
the order of the places. The places of other values are not fixed, so a set with such elements
keeps the order in which they were put in.

- `Value.residue?`: the number that decides about the place.
- `Table`: the places, empty or taken.
- `Table.order`: the elements of a set in the order in which it is shown.
-/

namespace Conveyor

/-- Numbers are counted modulo this prime, so that equal numbers of all kinds have equal
places. -/
def residueModulus : Nat := Nat.pow 2 61 - 1

namespace Value

/-- A residue with a sign. The residue `-1` is not used. -/
def signedResidue (negative : Bool) (n : Nat) : Int :=
  let r : Int := if negative then -(n % residueModulus : Nat) else (n % residueModulus : Nat)
  if r = -1 then -2 else r

/-- The residue of an infinity. -/
def infinityResidue : Nat := 314159

/-- The residue of a number: two to the power of 61 counts as one. -/
def residue? : Value → Option Int
  | .bool b => some (if b then 1 else 0)
  | .int i => some (signedResidue (i < 0) i.natAbs)
  | .float (.finite negative m e) => some (signedResidue negative (m * Nat.pow 2 (e % 61).toNat))
  | .float (.infinity negative) => some (signedResidue negative infinityResidue)
  | _ => none

end Value

/-- The places of a set. -/
abbrev Table := Array (Option Value)

namespace Table

/-- The number of places for a number of elements: a power of two, at least eight. -/
def sizeFor : Nat → Nat → Nat → Nat
  | 0, _, size => size
  | fuel + 1, elements, size =>
    if 2 * elements < size then size else sizeFor fuel elements (2 * size)

/-- The least number of places. -/
def leastSize : Nat := 8

/-- Up to this many elements the least number of places is enough. -/
def leastSizeHolds : Nat := 4

/-- A table without elements, for a number of them. -/
def empty (elements : Nat) : Table :=
  let size := if elements ≤ leastSizeHolds then leastSize else
    sizeFor elements elements leastSize
  Array.replicate size none

/-- The number of neighbours that are tried before another part of the table. -/
def neighbours : Nat := 9

/-- The first free place from `place` on, among `tries` places. -/
def freeFrom (t : Table) : (tries place : Nat) → Option Nat
  | 0, _ => none
  | tries + 1, place =>
    match t.getD place none with
    | none => some place
    | some _ => freeFrom t tries (place + 1)

/-- A free place for a residue. `left` holds the part of the residue that was not used yet. A
table has free places, and every one of them is tried in the end. -/
def findFree (t : Table) : Nat → (place left : Nat) → Nat
  | 0, place, _ => place
  | fuel + 1, place, left =>
    let tries := if place + neighbours < t.size then neighbours + 1 else 1
    match freeFrom t tries place with
    | some free => free
    | none =>
      let left := left / 32
      findFree t fuel ((place * 5 + 1 + left) % t.size) left

/-- Put an element into the table. -/
def insert (t : Table) (residue : Int) (v : Value) : Table :=
  let bits := (residue % (Nat.pow 2 64 : Nat)).toNat
  t.setIfInBounds (findFree t (64 * t.size) (bits % t.size) bits) (some v)

/-- The elements of a set in the order in which it is shown. -/
def order (items : List Value) : List Value :=
  match items.mapM fun v => v.residue?.map fun r => (r, v) with
  | none => items
  | some pairs =>
    (pairs.foldl (fun t e => insert t e.1 e.2) (empty items.length)).toList.filterMap id

end Table

end Conveyor
