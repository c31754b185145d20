import Conveyor.Value.Knot
import Conveyor.Value.Table
import Conveyor.Yaml.Merge

/-!
# The values of nodes

Every node of a graph stands for one value, wherever it occurs. Scalars are read when they are
met; collections are filled later, in the order in which they were met, so of several faults the
one at the least depth comes first. A collection that is not filled yet is still no key.

- `Yaml.Built`: what a node stands for, with the parts of a collection by number.
- `Yaml.Build`, `Yaml.BuildM`: the state of building, and steps that may fail.
- `Yaml.Build.meet`, `Yaml.Build.fill`: a node that is met, and a collection that is filled.
- `Yaml.Build.run`: all that the root of a graph stands for.
- `Yaml.Build.settle`: values for the nodes without endless parts; the others become knots.
-/

namespace Conveyor.Yaml

/-- An entry of a mapping under construction. -/
structure Slot where
  /-- Keys of one identity are equal, even if they are undefined numbers. -/
  identity : Nat
  key : Value
  value : NodeId
  deriving Repr

/-- Put an entry into a mapping. An equal key keeps its place and takes the new value. -/
def Slot.put (s : Slot) : List Slot → List Slot
  | [] => [s]
  | t :: rest =>
    if t.identity = s.identity || t.key.same s.key then { t with value := s.value } :: rest
    else t :: s.put rest

/-- What a node stands for. -/
inductive Built where
  | atom (v : Value)
  | list (items : List NodeId)
  | pairs (items : List (NodeId × NodeId))
  | map (slots : List Slot)
  | set (slots : List Slot)
  deriving Repr

/-- The state of building. -/
structure Build where
  graph : Graph
  /-- What the nodes that were met stand for. -/
  built : Array (Option Built)
  /-- The collections still to be filled, the last one met first. -/
  waiting : List NodeId
  /-- The number of entries in all mappings at the start. -/
  budget : Nat

/-- A step of building. -/
abbrev BuildM (α : Type) := StateT Build (Except Fault) α

namespace Build

/-- The state before the first node. -/
def start (g : Graph) : Build := ⟨g, Array.replicate g.size none, [], g.entryCount⟩

/-- Say what a node stands for. -/
def place (id : NodeId) (b : Built) : BuildM Unit :=
  modify fun s => { s with built := s.built.modify id fun _ => some b }

/-- A collection is empty at first, and filled later. -/
def postpone (id : NodeId) (b : Built) : BuildM Unit := do
  place id b
  modify fun s => { s with waiting := id :: s.waiting }

/-- A scalar under its tag. -/
def readScalar (id : NodeId) (n : Node) : BuildM Unit := do
  let text ← (← get).graph.scalarText id
  match n.tag, n.content with
  | .timestamp, .mapping _ => throw .mappedTimestamp
  | tag, _ => place id (.atom (← scalarValue tag text))

/-- A node that is met: the first time, it begins to stand for something. -/
def meet (id : NodeId) : BuildM Unit := do
  let s ← get
  match s.built.getD id none with
  | some _ => pure ()
  | none =>
    let n := s.graph.node id
    match n.tag with
    | .seq => postpone id (.list [])
    | .map => postpone id (.map [])
    | .set => postpone id (.set [])
    | .omap => postpone id (.pairs [])
    | .pairs => postpone id (.pairs [])
    | .merge => throw .malformed
    | .value => throw .malformed
    | .other _ => throw .malformed
    | _ => readScalar id n

/-- The identity of a key: the undefined number in its own notation is always the same one. -/
def identityOf (s : Build) (id : NodeId) : Nat :=
  match (s.graph.node id).tag, s.graph.scalarText id with
  | .float, .ok text => if isUndefinedWord text then s.graph.size else id
  | _, _ => id

/-- An entry of a mapping. A key has to be a scalar. -/
def meetEntry (slots : List Slot) (e : NodeId × NodeId) : BuildM (List Slot) := do
  meet e.1
  let s ← get
  match s.built.getD e.1 none with
  | some (.atom key) =>
    meet e.2
    return Slot.put ⟨s.identityOf e.1, key, e.2⟩ slots
  | _ => throw .malformed

/-- The entries of a mapping after its merge keys. -/
def meetEntries (id : NodeId) (n : Node) : BuildM (List Slot) := do
  match n.content with
  | .mapping _ =>
    let s ← get
    let graph ← s.graph.flatten s.budget id
    set { s with graph := graph }
    (graph.entries id).foldlM meetEntry []
  | _ => throw .malformed

/-- The pair of a mapping with a single entry. -/
def meetPair (id : NodeId) : BuildM (NodeId × NodeId) := do
  match ((← get).graph.node id).content with
  | .mapping [(k, v)] =>
    meet k
    meet v
    return (k, v)
  | _ => throw .malformed

/-- The items of a sequence. -/
def itemsOf (n : Node) : BuildM (List NodeId) :=
  match n.content with
  | .sequence items => pure items
  | _ => throw .malformed

/-- Fill a collection. -/
def fill (id : NodeId) : BuildM Unit := do
  let n := (← get).graph.node id
  match n.tag with
  | .seq =>
    let items ← itemsOf n
    items.forM meet
    place id (.list items)
  | .map => place id (.map (← meetEntries id n))
  | .set => place id (.set (← meetEntries id n))
  | _ => place id (.pairs (← (← itemsOf n).mapM meetPair))

/-- Fill the collections that were met, then those met on the way, and so on. Every node is met
once, so the number of nodes is enough fuel. -/
def fillAll : Nat → BuildM Unit
  | 0 => pure ()
  | fuel + 1 => do
    let s ← get
    if s.waiting.isEmpty then pure ()
    else
      set { s with waiting := [] }
      s.waiting.reverse.forM fill
      fillAll fuel

/-- All that the root of a graph stands for. -/
def run (g : Graph) (root : NodeId) : Except Fault (Array (Option Built)) := do
  let ((), s) ← (do meet root; fillAll (g.size + 1) : BuildM Unit).run (start g)
  return s.built

/-! ## Values -/

/-- The value of what a node stands for, given the values of its parts. -/
def assemble (part : NodeId → Option Value) : Built → Option Value
  | .atom v => some v
  | .list items => (items.mapM part).map .list
  | .pairs items =>
    (items.mapM fun (k, v) => do return Value.pair (← part k) (← part v)).map .list
  | .map slots =>
    (slots.mapM fun (s : Slot) => do return (s.key, ← part s.value)).map .map
  | .set slots => some (.set (Table.order (slots.map Slot.key)))

/-- Values for the nodes whose parts have values, the last node first. -/
def settlePass (built : Array (Option Built)) (values : Array (Option Value)) :
    Array (Option Value) :=
  (List.range built.size).foldr (fun id values =>
    match values.getD id none, built.getD id none with
    | none, some b =>
      match assemble (fun part => values.getD part none) b with
      | some v => values.modify id fun _ => some v
      | none => values
    | _, _ => values) values

/-- The number of nodes with a value. -/
def settledCount (values : Array (Option Value)) : Nat :=
  values.foldl (fun n v => if v.isSome then n + 1 else n) 0

/-- Values for all nodes without endless parts: passes are repeated until one adds nothing. -/
def settle (built : Array (Option Built)) : Nat → Array (Option Value) → Array (Option Value)
  | 0, values => values
  | fuel + 1, values =>
    let next := settlePass built values
    if settledCount next = settledCount values then values else settle built fuel next

/-- A reference to a node. -/
def reference (built : Array (Option Built)) (id : NodeId) : Value :=
  match built.getD id none with
  | some (.map _) => .again id true
  | _ => .again id false

/-- The value of the root, and the collections that are part of themselves or have such a
part. -/
def values (built : Array (Option Built)) (root : NodeId) : Value × Knots :=
  let settled := settle built (built.size + 1) (Array.replicate built.size none)
  let valueOf (id : NodeId) : Value := (settled.getD id none).getD (reference built id)
  let knots := (List.range built.size).filterMap fun id =>
    match settled.getD id none, built.getD id none with
    | none, some b => (assemble (fun part => some (valueOf part)) b).map fun v => (id, v)
    | _, _ => none
  (valueOf root, knots)

end Build

end Conveyor.Yaml
