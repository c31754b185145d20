import Conveyor.Yaml.Token
import Conveyor.Yaml.Scalar

/-!
# YAML nodes

The graph that a sequence of tokens describes. Every node has a tag; the tag of a plain scalar
follows from its text.

- `Yaml.Node`, `Yaml.Content`: scalars, sequences and mappings. The parts of a collection are
  given by their numbers.
- `Yaml.Graph`: the nodes of a document by number. An alias is the number of the node under its
  anchor, so nodes may be shared, and a collection may be part of itself.
- `Yaml.Parse`: the tokens still to be read, with the anchors, tag handles and nodes known so
  far.
- `Yaml.Graph.ofTokens`: the graph of the one document in a stream, and the number of its root;
  none if the stream is empty.
-/

namespace Conveyor.Yaml

/-- The number of a node in its graph. -/
abbrev NodeId := Nat

/-- What a node consists of. -/
inductive Content where
  | scalar (text : Text)
  | sequence (items : List NodeId)
  | mapping (entries : List (NodeId × NodeId))
  deriving DecidableEq, Repr, Inhabited

/-- A node of a document. -/
structure Node where
  tag : Tag
  content : Content
  deriving DecidableEq, Repr

/-- The nodes of a document by number. -/
abbrev Graph := Array Node

/-- The node of nothing at all. -/
def Node.blank : Node := ⟨.null, .scalar ""⟩

instance : Inhabited Node := ⟨Node.blank⟩

/-- The node with a number. -/
def Graph.node (g : Graph) (id : NodeId) : Node := g.getD id Node.blank

/-- Give a node another content. -/
def Graph.setContent (g : Graph) (id : NodeId) (content : Content) : Graph :=
  g.modify id fun n => { n with content := content }

/-- Give a node another tag. -/
def Graph.setTag (g : Graph) (id : NodeId) (tag : Tag) : Graph :=
  g.modify id fun n => { n with tag := tag }

/-- The state of reading nodes. -/
structure Parse where
  tokens : List Token
  anchors : List (String × NodeId)
  handles : List (String × String)
  nodes : Graph

/-- Reading nodes. -/
abbrev ParseM (α : Type) := StateT Parse (Except Fault) α

namespace Parse

/-- The next token. After a fault, that fault. -/
def peek : ParseM Token := do
  match (← get).tokens with
  | [] => throw .malformed
  | .fault f :: _ => throw f
  | t :: _ => pure t

/-- Go past the next token. -/
def skip : ParseM Unit := modify fun p => { p with tokens := p.tokens.drop 1 }

/-- Is the next token one of these? -/
def at? (choices : List Token) : ParseM Bool := do
  let t ← peek
  pure (choices.contains t)

/-- Go past a token that must come next. -/
def expect (t : Token) : ParseM Unit := do
  if (← peek) = t then skip else throw .malformed

/-- The full tag of a tag as written. -/
def resolveTag (t : TagName) : ParseM String := do
  match t.handle with
  | none => pure t.suffix
  | some h =>
    match (← get).handles.find? fun e => e.1 = h with
    | some (_, start) => pure (start ++ t.suffix)
    | none => throw .malformed

/-- The anchor and the tag in front of a node, in either order. -/
def properties : ParseM (Option String × Option TagName) := do
  match ← peek with
  | .anchor a =>
    skip
    match ← peek with
    | .tag t => skip; pure (some a, some t)
    | _ => pure (some a, none)
  | .tag t =>
    skip
    match ← peek with
    | .anchor a => skip; pure (some a, some t)
    | _ => pure (none, some t)
  | _ => pure (none, none)

/-- An anchor is defined once. -/
def checkAnchor (anchor : Option String) : ParseM Unit := do
  match anchor with
  | none => pure ()
  | some a => if (← get).anchors.any fun e => e.1 = a then throw .malformed else pure ()

/-- A new node, under its anchor if it has one. -/
def create (anchor : Option String) (n : Node) : ParseM NodeId := do
  checkAnchor anchor
  modifyGet fun p =>
    let id := p.nodes.size
    let anchors := match anchor with
      | none => p.anchors
      | some a => (a, id) :: p.anchors
    (id, { p with nodes := p.nodes.push n, anchors := anchors })

/-- The node of nothing at all. -/
def blank : ParseM NodeId := create none Node.blank

/-- Put the parts into a collection. -/
def complete (id : NodeId) (content : Content) : ParseM NodeId := do
  modify fun p => { p with nodes := p.nodes.setContent id content }
  return id

/-- The most collections that may be nested in each other. -/
def maxDepth : Nat := 489

/-- A collection at a depth. -/
def checkDepth (depth : Nat) : ParseM Unit :=
  if maxDepth < depth then throw .tooDeep else pure ()

/-- A new sequence without items. -/
def createSequence (depth : Nat) (anchor : Option String) (tag : Tag) : ParseM NodeId := do
  let id ← create anchor ⟨tag, .sequence []⟩
  checkDepth depth
  return id

/-- A new mapping without entries. -/
def createMapping (depth : Nat) (anchor : Option String) (tag : Tag) : ParseM NodeId := do
  let id ← create anchor ⟨tag, .mapping []⟩
  checkDepth depth
  return id

/-- A scalar with its tag: a plain one without a tag is tagged by its text. -/
def taggedScalar (tag : Option String) (text : Text) (plain : Bool) : Node :=
  match tag with
  | none => ⟨if plain then Tag.ofPlain text else .str, .scalar text⟩
  | some "!" => ⟨Tag.ofPlain text, .scalar text⟩
  | some t => ⟨Tag.ofName t, .scalar text⟩

/-- The tag of a collection. -/
def collectionTag (tag : Option String) (default : Tag) : Tag :=
  match tag with
  | none => default
  | some "!" => default
  | some t => Tag.ofName t

mutual

/-- One node, inside `depth` collections. `block` admits block collections, `indentless` a
sequence at the indentation of the mapping around it. -/
def node : Nat → (depth : Nat) → (block indentless : Bool) → ParseM NodeId
  | 0, _, _, _ => throw .malformed
  | fuel + 1, depth, block, indentless => do
    match ← peek with
    | .alias name =>
      skip
      match (← get).anchors.lookup name with
      | some id => return id
      | none => throw .malformed
    | _ =>
      let (anchor, written) ← properties
      let tag ← match written with
        | none => pure none
        | some t => pure (some (← resolveTag t))
      let inner := depth + 1
      match ← peek with
      | .scalar text plain =>
        skip
        create anchor (taggedScalar tag text plain)
      | .flowSequenceStart =>
        let id ← createSequence inner anchor (collectionTag tag .seq)
        skip
        complete id (.sequence (← flowItems fuel inner true))
      | .flowMappingStart =>
        let id ← createMapping inner anchor (collectionTag tag .map)
        skip
        complete id (.mapping (← flowEntries fuel inner true))
      | t =>
        if indentless && t = .blockEntry then
          let id ← createSequence inner anchor (collectionTag tag .seq)
          complete id (.sequence (← indentlessItems fuel inner))
        else if block && t = .blockSequenceStart then
          let id ← createSequence inner anchor (collectionTag tag .seq)
          skip
          complete id (.sequence (← blockItems fuel inner))
        else if block && t = .blockMappingStart then
          let id ← createMapping inner anchor (collectionTag tag .map)
          skip
          complete id (.mapping (← blockEntries fuel inner))
        else if anchor.isSome || tag.isSome then create anchor (taggedScalar tag "" true)
        else throw .malformed

/-- The rest of a block sequence. -/
def blockItems : Nat → Nat → ParseM (List NodeId)
  | 0, _ => throw .malformed
  | fuel + 1, depth => do
    if ← at? [.blockEntry] then
      skip
      let item ←
        if ← at? [.blockEntry, .blockEnd] then blank else node fuel depth true false
      return item :: (← blockItems fuel depth)
    else
      expect .blockEnd
      return []

/-- The rest of a sequence at the indentation of the mapping around it. -/
def indentlessItems : Nat → Nat → ParseM (List NodeId)
  | 0, _ => throw .malformed
  | fuel + 1, depth => do
    if ← at? [.blockEntry] then
      skip
      let item ←
        if ← at? [.blockEntry, .key, .value, .blockEnd] then blank
        else node fuel depth true false
      return item :: (← indentlessItems fuel depth)
    else return []

/-- The rest of a block mapping. -/
def blockEntries : Nat → Nat → ParseM (List (NodeId × NodeId))
  | 0, _ => throw .malformed
  | fuel + 1, depth => do
    if ← at? [.key] then
      skip
      let key ←
        if ← at? [.key, .value, .blockEnd] then blank else node fuel depth true true
      let value ←
        if ← at? [.value] then
          skip
          if ← at? [.key, .value, .blockEnd] then blank else node fuel depth true true
        else blank
      return (key, value) :: (← blockEntries fuel depth)
    else
      expect .blockEnd
      return []

/-- The rest of a sequence in brackets. -/
def flowItems : Nat → Nat → (first : Bool) → ParseM (List NodeId)
  | 0, _, _ => throw .malformed
  | fuel + 1, depth, first => do
    if ← at? [.flowSequenceEnd] then
      skip
      return []
    else
      if !first then expect .flowEntry
      if ← at? [.key] then
        -- a single entry of a mapping, without braces
        let id ← createMapping (depth + 1) none .map
        skip
        let entry ← flowEntry fuel (depth + 1) .flowSequenceEnd
        let item ← complete id (.mapping [entry])
        return item :: (← flowItems fuel depth false)
      else if ← at? [.flowSequenceEnd] then
        skip
        return []
      else
        let item ← node fuel depth false false
        return item :: (← flowItems fuel depth false)

/-- The rest of a mapping in braces. -/
def flowEntries : Nat → Nat → (first : Bool) → ParseM (List (NodeId × NodeId))
  | 0, _, _ => throw .malformed
  | fuel + 1, depth, first => do
    if ← at? [.flowMappingEnd] then
      skip
      return []
    else
      if !first then expect .flowEntry
      if ← at? [.key] then
        skip
        let entry ← flowEntry fuel depth .flowMappingEnd
        return entry :: (← flowEntries fuel depth false)
      else if ← at? [.flowMappingEnd] then
        skip
        return []
      else
        let key ← node fuel depth false false
        let value ← blank
        return (key, value) :: (← flowEntries fuel depth false)

/-- The key and the value after the announcement of a key in brackets or braces; `stop` closes
them. -/
def flowEntry : Nat → Nat → (stop : Token) → ParseM (NodeId × NodeId)
  | 0, _, _ => throw .malformed
  | fuel + 1, depth, stop => do
    let key ←
      if ← at? [.value, .flowEntry, stop] then blank else node fuel depth false false
    let value ←
      if ← at? [.value] then
        skip
        if ← at? [.flowEntry, stop] then blank else node fuel depth false false
      else blank
    return (key, value)

end

/-- The tag handles that are always known. -/
def defaultHandles : List (String × String) := [("!", "!"), ("!!", Tag.standard)]

/-- The directives in front of a document. -/
def directives : Nat → (versioned : Bool) → ParseM Unit
  | 0, _ => throw .malformed
  | fuel + 1, versioned => do
    match ← peek with
    | .directive (.version major) =>
      skip
      if versioned || major ≠ 1 then throw .malformed else directives fuel true
    | .directive (.handle name start) =>
      skip
      if (← get).handles.any fun e => e.1 = name then throw .malformed
      else
        modify fun p => { p with handles := (name, start) :: p.handles }
        directives fuel versioned
    | .directive .other => skip; directives fuel versioned
    | _ => pure ()

/-- Go past document ends. -/
def documentEnds : Nat → ParseM Unit
  | 0 => throw .malformed
  | fuel + 1 => do
    if ← at? [.documentEnd] then
      skip
      documentEnds fuel
    else pure ()

/-- The directives in front of a document, and the marker that starts it. -/
def openDocument (fuel : Nat) : ParseM Unit := do
  modify fun p => { p with handles := [] }
  directives fuel false
  modify fun p => { p with handles := p.handles ++ defaultHandles }
  expect .documentStart

/-- A document that is announced by a marker; none at the end of the stream. -/
def announcedDocument (fuel : Nat) : ParseM (Option NodeId) := do
  documentEnds fuel
  if ← at? [.streamEnd] then return none
  else
    openDocument fuel
    match ← peek with
    | .directive _ => return some (← blank)
    | .documentStart => return some (← blank)
    | .documentEnd => return some (← blank)
    | .streamEnd => return some (← blank)
    | _ => return some (← node fuel 0 true false)

/-- The first document of a stream. -/
def firstDocument (fuel : Nat) : ParseM (Option NodeId) := do
  match ← peek with
  | .directive _ => announcedDocument fuel
  | .documentStart => announcedDocument fuel
  | .streamEnd => return none
  | _ =>
    modify fun p => { p with handles := defaultHandles }
    return some (← node fuel 0 true false)

/-- The only document of a stream: nothing but markers may follow it. -/
def onlyDocument (fuel : Nat) : ParseM (Option NodeId) := do
  match ← firstDocument fuel with
  | none => return none
  | some id =>
    documentEnds fuel
    if ← at? [.streamEnd] then return some id
    else
      openDocument fuel
      throw .malformed

end Parse

/-- The graph of the only document of a stream with the number of its root; none if the stream is
empty. -/
def Graph.ofTokens (tokens : List Token) : Except Fault (Option (Graph × NodeId)) := do
  let (root, p) ← (Parse.onlyDocument (tokens.length + 1)).run
    ⟨tokens, [], Parse.defaultHandles, #[]⟩
  return root.map fun id => (p.nodes, id)

end Conveyor.Yaml
