import Conveyor.Document.Reader
import Conveyor.Yaml.Decode

/-!
# Loading documents

From the bytes of a file to a document. Who reads the YAML in the file is left open.

- `Yaml.Reader`: what makes a value of the bytes of a file, such as `Yaml.decode`.
- `LoadFault`: the file is missing, is no text, is no YAML, or holds no document.
- `PipelineDocument.load`: the document in a file; `none` stands for a file that does not exist.
-/

namespace Conveyor

/-- What makes a value of the bytes of a file, with the collections that are part of
themselves. -/
abbrev Yaml.Reader := List UInt8 → Except Yaml.Fault (Value × Knots)

/-- Why a file holds no document. -/
inductive LoadFault where
  | missing (path : Text)
  /-- The bytes are not UTF-8. -/
  | notText
  | malformed (path : Text)
  | value (fault : Yaml.Fault)
  | document (fault : DocumentFault)
  deriving DecidableEq, Repr

/-- Why a file holds no document, in words. -/
def LoadFault.message : LoadFault → Text
  | .missing path => "Pipeline document not found: " ++ path
  | .notText => "not UTF-8"
  | .malformed path => "Invalid YAML in " ++ path
  | .value f => f.message
  | .document f => f.message

/-- The document in a file with the given content. Of the faults of the reader, only that the
text is no YAML is put in other words. -/
def PipelineDocument.load (path : Text) (content : Option (List UInt8))
    (read : Yaml.Reader := Yaml.decode) : Except LoadFault PipelineDocument :=
  match content with
  | none => .error (.missing path)
  | some bytes =>
    match read bytes with
    | .error .malformed => .error (.malformed path)
    | .error .notText => .error .notText
    | .error f => .error (.value f)
    | .ok (v, knots) => (PipelineDocument.ofKnotted knots v).mapError .document

end Conveyor
