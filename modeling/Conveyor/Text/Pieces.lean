import Conveyor.Text.Basic

/-!
# Pieces of a text

Cutting texts apart and putting them together, over `List CodePoint` so that each function is a
plain recursion.

- `dropStart?`, `contains`: a text at the start of, or anywhere in, another.
- `splitAt`, `joinWith`: cutting at a separator, and the way back for several texts.
- `sortTexts`: the order by code point, in which every listing of names is given.
-/

namespace Conveyor.Text

/-- `needle` begins `hay`: the rest of `hay` after it. -/
def dropStart? {α : Type} [DecidableEq α] : List α → List α → Option (List α)
  | [], hay => some hay
  | _ :: _, [] => none
  | c :: cs, d :: ds => if c = d then dropStart? cs ds else none

/-- Does the text `hay` contain `needle`? -/
def contains (needle : List CodePoint) : List CodePoint → Bool
  | [] => needle.isEmpty
  | c :: rest => (dropStart? needle (c :: rest)).isSome || contains needle rest

/-- Cut a text at every occurrence of a separator character. The result is never empty. -/
def splitAt (sep : CodePoint) : List CodePoint → List (List CodePoint)
  | [] => [[]]
  | c :: rest =>
    match splitAt sep rest with
    | [] => [[c]]
    | part :: parts => if c = sep then [] :: part :: parts else (c :: part) :: parts

/-- Texts joined by a separator. -/
def joinWith (sep : Text) : List Text → Text
  | [] => ""
  | [s] => s
  | s :: rest => s ++ sep ++ joinWith sep rest

/-- The order of texts by code point. -/
def precedes (a b : Text) : Bool := decide (a.toList < b.toList)

/-- Texts sorted by code point. -/
def sortTexts (xs : List Text) : List Text :=
  xs.mergeSort fun a b => !precedes b a

end Conveyor.Text
