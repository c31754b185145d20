import Conveyor.Text.Basic

/-!
# Terminal styling

Texts that are not shown on a terminal lose the sequences that would control it: an escape
character, a bracket, parameters, further marks, and a final character.

- `afterSequence?`: what follows a sequence at the start of a text.
- `dropStyling`: a text without such sequences.
-/

namespace Conveyor.Text

/-- May the character be a parameter of a sequence? -/
def isStyleParameter (c : CodePoint) : Bool := '0' ≤ c && c ≤ '?'

/-- May the character stand between the parameters and the final character of a sequence? -/
def isStyleMark (c : CodePoint) : Bool := ' ' ≤ c && c ≤ '/'

/-- Can the character end a sequence? -/
def isStyleFinal (c : CodePoint) : Bool := '@' ≤ c && c ≤ '~'

/-- What follows the sequence that a text starts with, if it does. -/
def afterSequence? : List CodePoint → Option (List CodePoint)
  | .char '\x1b' :: .char '[' :: rest =>
    match (rest.dropWhile isStyleParameter).dropWhile isStyleMark with
    | c :: more => if isStyleFinal c then some more else none
    | [] => none
  | _ => none

/-- A text without the sequences in it. `skip` characters belong to a sequence that is being
dropped. -/
def dropStylingFrom : (skip : Nat) → List CodePoint → List CodePoint
  | _, [] => []
  | skip + 1, _ :: rest => dropStylingFrom skip rest
  | 0, c :: rest =>
    match afterSequence? (c :: rest) with
    | some more => dropStylingFrom (rest.length - more.length) rest
    | none => c :: dropStylingFrom 0 rest

/-- A text without styling. -/
def dropStyling (s : Text) : Text := Text.ofList (dropStylingFrom 0 s.toList)

end Conveyor.Text
