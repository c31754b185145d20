import Conveyor.Yaml.Build
import Conveyor.Yaml.Supply

/-!
# The value of a YAML file

- `Yaml.decode`: the value of a whole file, with the collections that are part of themselves.
-/

namespace Conveyor.Yaml

/-- The value of a YAML file; nothing at all for a file without a document. -/
def decode (bytes : List UInt8) : Except Fault (Value × Knots) := do
  match ← Graph.ofTokens (Token.scan (Excerpt.ofBytes bytes)) with
  | none => return (.null, [])
  | some (g, root) => return Build.values (← Build.run g root) root

end Conveyor.Yaml
