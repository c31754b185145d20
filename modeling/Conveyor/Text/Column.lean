import Conveyor.Text.Basic

/-!
# Columns

Padding for tables and for numbers of a fixed width.
-/

namespace Conveyor.Text

/-- Pad a text with spaces on the right up to a width; longer texts are left alone. -/
def padRight (width : Nat) (s : Text) : Text :=
  s ++ Text.ofList (List.replicate (width - s.length) ' ')

/-- Pad a text with spaces on the left up to a width. -/
def padLeft (width : Nat) (s : Text) : Text :=
  Text.ofList (List.replicate (width - s.length) ' ') ++ s

/-- A natural number in decimal with at least `width` digits. -/
def zeroPadded (width n : Nat) : String :=
  let s := Nat.repr n
  String.ofList (List.replicate (width - s.length) '0') ++ s

end Conveyor.Text
