import Conveyor.Yaml.Node

/-!
# Merge keys

A mapping may take in the entries of other mappings under a merge key. Taking them in changes the
mapping itself, so whoever shares the node sees it without merge keys afterwards.

- `Yaml.Graph.flatten`: take in what the merge keys of a mapping refer to; its own entries come
  last, so they win. A mapping that merges itself adds what it has by then.
- `Yaml.Graph.scalarText`: the text of a node that must be a scalar. A mapping stands for the
  entry under its value key.
-/

namespace Conveyor.Yaml

namespace Graph

/-- The entries of a node; only mappings have any. -/
def entries (g : Graph) (id : NodeId) : List (NodeId × NodeId) :=
  match (g.node id).content with
  | .mapping es => es
  | _ => []

/-- Is the node a merge key? -/
def isMerge (g : Graph) (id : NodeId) : Bool := (g.node id).tag = .merge

/-- Is the node a value key? -/
def isValueKey (g : Graph) (id : NodeId) : Bool := (g.node id).tag = .value

/-- The number of entries in all mappings. -/
def entryCount (g : Graph) : Nat := g.foldl (fun n node =>
  match node.content with
  | .mapping es => n + es.length
  | _ => n) 0

/-- The value keys among the entries of a mapping are ordinary texts. -/
def settleKeys (g : Graph) (id : NodeId) : Graph :=
  (g.entries id).foldl (fun g e => if g.isValueKey e.1 then g.setTag e.1 .str else g) g

/-- The most mappings that may take in one another in a row. -/
def maxMerges : Nat := 986

/-- Take in what the merge keys of a mapping refer to, in front of its own entries. `merged`
holds what was taken in before, and `depth` counts the mappings that wait for this one. Every
step removes a merge key and none ever adds one, so the number of entries is enough fuel. -/
def flattenWith :
    Nat → (depth : Nat) → (merged : List (NodeId × NodeId)) → NodeId →
    StateT Graph (Except Fault) Unit
  | 0, _, _, _ => throw .malformed
  | fuel + 1, depth, merged, id => do
    if maxMerges < depth then throw .tooDeep
    let g ← get
    let own := g.entries id
    match own.findIdx? fun e => g.isMerge e.1 with
    | none =>
      let g := if merged.isEmpty then g else g.setContent id (.mapping (merged ++ own))
      set (g.settleKeys id)
    | some i =>
      set (g.setContent id (.mapping (own.eraseIdx i)))
      let source := (own.map Prod.snd).getD i id
      match (g.node source).content with
      | .mapping _ =>
        flattenWith fuel (depth + 1) [] source
        flattenWith fuel depth (merged ++ (← get).entries source) id
      | .sequence items =>
        -- of several mappings the first wins, so it comes last
        let taken ← items.foldlM (fun taken item => do
          match ((← get).node item).content with
          | .mapping _ =>
            flattenWith fuel (depth + 1) [] item
            return (← get).entries item ++ taken
          | _ => throw .malformed) []
        flattenWith fuel depth (merged ++ taken) id
      | .scalar _ => throw .malformed

/-- Take in what the merge keys of a mapping refer to. `budget` is at least the number of entries
in all mappings. -/
def flatten (g : Graph) (budget : Nat) (id : NodeId) : Except Fault Graph := do
  let ((), g) ← (flattenWith (budget + 1) 0 [] id).run g
  return g

/-- The text of a node that must be a scalar. A mapping that stands for itself goes on for
ever. -/
def scalarTextWith (g : Graph) : Nat → NodeId → Except Fault Text
  | 0, _ => .error .tooDeep
  | fuel + 1, id =>
    match (g.node id).content with
    | .scalar text => .ok text
    | .sequence _ => .error .malformed
    | .mapping es =>
      match es.find? fun e => g.isValueKey e.1 with
      | some (_, v) => scalarTextWith g fuel v
      | none => .error .malformed

/-- The text of a node that must be a scalar. -/
def scalarText (g : Graph) (id : NodeId) : Except Fault Text :=
  g.scalarTextWith (g.size + 1) id

end Graph

end Conveyor.Yaml
