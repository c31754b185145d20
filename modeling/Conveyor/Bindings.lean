import Conveyor.Text.Basic

/-!
# Bindings

Names bound to texts, in the order in which the names were first bound. Variables, environments
and the entries of a matrix are bindings.

- `Bindings.put`: a name that is bound keeps its place and takes the new text.
- `Bindings.get?`: the text of a name.
- `Bindings.update`: all bindings of a second collection, on top of a first.
-/

namespace Conveyor

/-- Names bound to texts, in order. -/
abbrev Bindings := List (Text × Text)

namespace Bindings

/-- Bind a name. -/
def put (name text : Text) : Bindings → Bindings
  | [] => [(name, text)]
  | (n, t) :: rest => if n = name then (n, text) :: rest else (n, t) :: put name text rest

/-- The text of a name. -/
def get? (name : Text) : Bindings → Option Text
  | [] => none
  | (n, t) :: rest => if n = name then some t else get? name rest

/-- Put all bindings of `more` on top of `base`. -/
def update (base more : Bindings) : Bindings :=
  more.foldl (fun b e => put e.1 e.2 b) base

/-- The bindings of a sequence of pairs. -/
def ofPairs (pairs : List (Text × Text)) : Bindings := update [] pairs

/-- The bound names. -/
def names (b : Bindings) : List Text := b.map Prod.fst

/-- A name that was just bound has the text it was bound to. -/
theorem get?_put_self (name text : Text) (b : Bindings) :
    get? name (put name text b) = some text := by
  induction b with
  | nil => simp [put, get?]
  | cons e rest ih => by_cases h : e.1 = name <;> simp [put, get?, h, ih]

end Bindings

end Conveyor
