import Conveyor.Value

/-!
# Values that are part of themselves

A document may hold a collection that is one of its own parts. As a tree such a value is endless,
so at every place where it occurs there is a reference to it, and what it consists of is kept
beside the tree.

- `Value.replace`: other values in place of the references.
- `Knots`: the collections that are part of themselves, or have such a part, by label.
- `Knots.follow`: the collection behind a reference.
- `Knots.unfold`: a value with the collections in place of the references, each down to the place
  where it comes round again.
-/

namespace Conveyor

namespace Value

mutual

/-- Put values in place of the references. -/
def replace (f : Nat → Bool → Value) : Value → Value
  | .list xs => .list (replaceAll f xs)
  | .map es => .map (replaceEntries f es)
  | .set xs => .set (replaceAll f xs)
  | .pair a b => .pair (replace f a) (replace f b)
  | .again label mapping => f label mapping
  | v => v

/-- Put values in place of the references in a list. -/
def replaceAll (f : Nat → Bool → Value) : List Value → List Value
  | [] => []
  | x :: xs => replace f x :: replaceAll f xs

/-- Put values in place of the references in a list of entries. -/
def replaceEntries (f : Nat → Bool → Value) : List (Value × Value) → List (Value × Value)
  | [] => []
  | (k, v) :: es => (replace f k, replace f v) :: replaceEntries f es

end

end Value

/-- The collections that are part of themselves, or have such a part, by label. -/
abbrev Knots := List (Nat × Value)

namespace Knots

/-- The collection behind a reference; every other value is itself. -/
def follow (ks : Knots) : Value → Value
  | .again label mapping => (ks.lookup label).getD (.again label mapping)
  | v => v

/-- A value with the collections in place of the references, but for those inside themselves.
Each step down adds a label to `inside`, so the number of labels is enough fuel. -/
def unfoldWith (ks : Knots) : Nat → (inside : List Nat) → Value → Value
  | 0, _, v => v
  | fuel + 1, inside, v =>
    v.replace fun label mapping =>
      if inside.contains label then .again label mapping
      else unfoldWith ks fuel (label :: inside) (ks.follow (.again label mapping))

/-- A value with the collections in place of the references, each down to the place where it
comes round again. -/
def unfold (ks : Knots) (v : Value) : Value :=
  if ks.isEmpty then v else ks.unfoldWith (ks.length + 1) [] v

/-- Without any knots there is nothing to follow. -/
@[simp] theorem follow_nil (v : Value) : follow [] v = v := by
  cases v <;> simp [follow]

/-- Without any knots there is nothing to unfold. -/
@[simp] theorem unfold_nil (v : Value) : unfold [] v = v := rfl

end Knots

end Conveyor
