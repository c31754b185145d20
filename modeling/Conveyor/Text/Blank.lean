import Conveyor.Text.Basic

/-!
# Blank characters and line boundaries

Scripts and settings are free text in any alphabet, so "blank" and "end of line" are
decided by Unicode and not by ASCII alone.

- `isBlank`: the characters that trimming removes.
- `trim`: a text without the blanks at its two ends.
- `isLineEnd`, `lines`: the boundaries at which a text falls into lines; a carriage return
  followed by a line feed is one boundary.
-/

namespace Conveyor.Text

/-- White space: the Unicode separators, the ASCII controls from tab to carriage return, the
four information separators and the next-line control. -/
def isBlank (c : CodePoint) : Bool :=
  let n := c.toNat
  (0x09 ≤ n && n ≤ 0x0D) || (0x1C ≤ n && n ≤ 0x20) || n == 0x85 || n == 0xA0 || n == 0x1680 ||
    (0x2000 ≤ n && n ≤ 0x200A) || n == 0x2028 || n == 0x2029 || n == 0x202F || n == 0x205F ||
    n == 0x3000

/-- The text without its leading blanks. -/
def trimLeft (cs : List CodePoint) : List CodePoint := cs.dropWhile isBlank

/-- The text without the blanks at either end. -/
def trim (cs : List CodePoint) : List CodePoint := (trimLeft (trimLeft cs).reverse).reverse

/-- A text is blank when it has no other character. -/
def allBlank (s : Text) : Bool := s.toList.all isBlank

/-- The characters that end a line. -/
def isLineEnd (c : CodePoint) : Bool :=
  let n := c.toNat
  (0x0A ≤ n && n ≤ 0x0D) || (0x1C ≤ n && n ≤ 0x1E) || n == 0x85 || n == 0x2028 || n == 0x2029

/-- The first line of a text, without its line end. -/
def firstLine (cs : List CodePoint) : List CodePoint := cs.takeWhile fun c => !isLineEnd c

/-- Split a text into lines. `cur` collects the current line in reverse. A line end at the very
end of the text opens no further line. -/
def linesFrom (cur : List CodePoint) : List CodePoint → List (List CodePoint)
  | [] => if cur.isEmpty then [] else [cur.reverse]
  | .char '\r' :: .char '\n' :: rest => cur.reverse :: linesFrom [] rest
  | c :: rest =>
    if isLineEnd c then cur.reverse :: linesFrom [] rest else linesFrom (c :: cur) rest

/-- The lines of a text, without their line ends. -/
def lines (s : Text) : List Text := (linesFrom [] s.toList).map Text.ofList

end Conveyor.Text
