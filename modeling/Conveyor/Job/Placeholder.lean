import Conveyor.Bindings
import Conveyor.Text.Blank
import Conveyor.Text.Pieces

/-!
# Placeholders in image names

A container image may refer to the bindings of its variant, as `$name` or as the name in braces
after the dollar sign; two dollar signs stand for one.

- `Placeholder.Piece`: a character of the image, a reference, or a dollar sign that starts
  neither.
- `Placeholder.pieces`: the image cut into pieces from left to right.
- `Placeholder.substitute`: every reference replaced by its text, which is not looked at again.
-/

namespace Conveyor.Placeholder

/-- One piece of an image. -/
inductive Piece where
  | char (c : CodePoint)
  | ref (name : Text)
  | stray
  deriving DecidableEq, Repr

/-- May a name start with this character? -/
def startsName (c : CodePoint) : Bool := c.isAlpha || c == '_'

/-- May a name go on with this character? -/
def continuesName (c : CodePoint) : Bool := c.isAlphanum || c == '_'

/-- The longest name at the start of a text, and the rest. -/
def takeName : List CodePoint → Option (Text × List CodePoint)
  | [] => none
  | c :: rest =>
    if startsName c then
      some (Text.ofList (c :: rest.takeWhile continuesName), rest.dropWhile continuesName)
    else none

/-- What follows a dollar sign: the piece, and the rest. -/
def afterDollar : List CodePoint → Piece × List CodePoint
  | .char '$' :: rest => (.char '$', rest)
  | .char '\x7b' :: rest =>
    match takeName rest with
    | some (name, .char '\x7d' :: more) => (.ref name, more)
    | _ => (.stray, '\x7b' :: rest)
  | cs =>
    match takeName cs with
    | some (name, rest) => (.ref name, rest)
    | none => (.stray, cs)

/-- The pieces of an image, with fuel for its length. -/
def piecesWith : Nat → List CodePoint → List Piece
  | 0, _ => []
  | _ + 1, [] => []
  | fuel + 1, .char '$' :: rest =>
    let (piece, more) := afterDollar rest
    piece :: piecesWith fuel more
  | fuel + 1, c :: rest => .char c :: piecesWith fuel rest

/-- The pieces of an image. -/
def pieces (image : List CodePoint) : List Piece := piecesWith image.length image

/-- Why an image cannot be resolved. -/
inductive Fault where
  | unbound (name : Text)
  | stray (line column : Nat)
  deriving DecidableEq, Repr

/-- The line and column, from 1, of the last character of a text. -/
def position (cs : List CodePoint) : Nat × Nat :=
  let ls := Text.linesFrom [] cs
  (ls.length, (ls.getLast?.getD []).length)

/-- The number of characters of the image before the first stray dollar sign, that sign
included. -/
def strayAt : Nat → List CodePoint → Nat
  | 0, _ => 0
  | _ + 1, [] => 0
  | fuel + 1, .char '$' :: rest =>
    match afterDollar rest with
    | (.stray, _) => 1
    | (_, more) => 1 + (rest.length - more.length) + strayAt fuel more
  | fuel + 1, _ :: rest => 1 + strayAt fuel rest

/-- The fault of a stray dollar sign in the image. -/
def strayFault (image : List CodePoint) : Fault :=
  let (line, column) := position (image.take (strayAt image.length image))
  .stray line column

/-- Replace the references among the pieces. -/
def replace (bindings : Bindings) (image : List CodePoint) :
    List Piece → Except Fault (List CodePoint)
  | [] => .ok []
  | .char c :: rest => do .ok (c :: (← replace bindings image rest))
  | .ref name :: rest =>
    match bindings.get? name with
    | none => .error (.unbound name)
    | some text => do .ok (text.toList ++ (← replace bindings image rest))
  | .stray :: _ => .error (strayFault image)

/-- The image with every reference replaced by its text. -/
def substitute (bindings : Bindings) (image : Text) : Except Fault Text := do
  let cs := image.toList
  .ok (Text.ofList (← replace bindings cs (pieces cs)))

end Conveyor.Placeholder
