import Conveyor.Text.Pieces

/-!
# Paths

- `Path`: how a path starts, and its parts.
- `Path.read`, `Path.text`: from and to the written form. Empty parts and `.` parts do not count;
  `..` stays, since it may lead elsewhere. Two slashes at the start are kept, more are one.
- `Path.parent`: the path of the directory that a path names something in.
- `nameTooLong`, `textTooLong`: the limits of the file system, in bytes.
-/

namespace Conveyor

/-- A path. The root is empty for a relative path. -/
structure Path where
  root : Text
  parts : List Text
  deriving DecidableEq, Repr

/-- The parts of a path between slashes. -/
def pathParts (path : Text) : List Text :=
  (Text.splitAt '/' path.toList).map Text.ofList

/-- Does a part lead anywhere? -/
def isStep (part : Text) : Bool := part ≠ "" && part ≠ "."

namespace Path

/-- How a path starts. -/
def rootOf (path : List CodePoint) : Text :=
  match path.takeWhile (· = CodePoint.char '/') with
  | [] => ""
  | [.char '/', .char '/'] => "//"
  | _ => "/"

/-- The path of a written form. -/
def read (path : Text) : Path := ⟨rootOf path.toList, (pathParts path).filter isStep⟩

/-- The written form of a path. -/
def text (p : Path) : Text :=
  if p.root = "" && p.parts.isEmpty then "." else p.root ++ Text.joinWith "/" p.parts

/-- The path of the directory that a path names something in. -/
def parent (p : Path) : Path := { p with parts := p.parts.dropLast }

/-- Is the path absolute? -/
def isAbsolute (p : Path) : Bool := p.root ≠ ""

/-- A path below another. -/
def below (p : Path) (parts : List Text) : Path := { p with parts := p.parts ++ parts }

end Path

/-- The most bytes that the name of a file may have. -/
def maxNameBytes : Nat := 255

/-- The most bytes that a path may have. -/
def maxPathBytes : Nat := 4095

/-- Is a name longer than the file system allows? -/
def nameTooLong (name : Text) : Bool := maxNameBytes < name.byteSize

/-- Is a path longer than the file system allows? -/
def textTooLong (path : Text) : Bool := maxPathBytes < path.byteSize

/-- Does a text hold a null character? No path does. -/
def hasNull (path : Text) : Bool := path.toList.contains '\x00'

/-- What is said of a path with a null character. -/
def nullMessage : Text := "embedded null byte"

end Conveyor
