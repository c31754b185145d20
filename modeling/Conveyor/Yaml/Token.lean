import Conveyor.Yaml.Lexeme

/-!
# YAML tokens

A YAML text as a sequence of tokens. Indentation shows in the tokens that open and close blocks.
A key may be recognised only by the colon behind it, so the tokens that announce a key are put in
front of tokens that were read before.

- `Yaml.Token`: the tokens.
- `Yaml.PossibleKey`: a place that may turn out to be the start of a key: on one line, and at
  most 1024 characters long.
- `Yaml.Scanner`, `Yaml.Scan`: the state between two tokens, and steps from state to state.
- `Yaml.Scanner.settled`: the tokens in front of which nothing can be put any more.
- `Yaml.Token.scan`: the tokens of a text, up to the first fault. A fault hides the tokens before
  it that are not settled.
-/

namespace Conveyor.Yaml

/-- A token of the language. -/
inductive Token where
  | streamEnd
  | directive (d : Directive)
  | documentStart
  | documentEnd
  | blockSequenceStart
  | blockMappingStart
  | blockEnd
  | flowSequenceStart
  | flowSequenceEnd
  | flowMappingStart
  | flowMappingEnd
  | blockEntry
  | flowEntry
  | key
  | value
  | alias (name : String)
  | anchor (name : String)
  | tag (name : TagName)
  | scalar (text : Text) (plain : Bool)
  /-- The text cannot be read any further. -/
  | fault (f : Fault)
  deriving DecidableEq, Repr

/-- A place where a key may start. -/
structure PossibleKey where
  /-- The number of tokens before it. -/
  position : Nat
  /-- The block structure demands a key here. -/
  required : Bool
  index : Nat
  line : Nat
  column : Nat
  deriving Repr

/-- The state of reading tokens. -/
structure Scanner where
  cursor : Cursor
  /-- The number of tokens that are settled and gone. -/
  passed : Nat
  /-- The tokens after those. -/
  tokens : Array Token
  /-- The number of open brackets and braces. -/
  flowLevel : Nat
  /-- The column of the innermost block, and those around it. -/
  indent : Int
  indents : List Int
  /-- May a key start at the cursor? -/
  keyAllowed : Bool
  /-- The possible keys, by flow level. -/
  keys : List (Nat × PossibleKey)

/-- A step of reading tokens. -/
abbrev Scan (α : Type) := StateT Scanner (Except Fault) α

namespace Scanner

/-- The state at the start of a text. -/
def start (e : Excerpt) : Scanner := ⟨Cursor.start e, 0, #[], 0, -1, [], true, []⟩

/-- Inside brackets or braces? -/
def inFlow (s : Scanner) : Bool := s.flowLevel != 0

/-- Append a token. -/
def push (s : Scanner) (t : Token) : Scanner := { s with tokens := s.tokens.push t }

/-- Is the possible key out of reach of the cursor? -/
def isStale (s : Scanner) (k : PossibleKey) : Bool :=
  k.line != s.cursor.line || k.index + 1024 < s.cursor.index

/-- The number of tokens read so far. -/
def count (s : Scanner) : Nat := s.passed + s.tokens.size

/-- The number of tokens in front of the first possible key. -/
def firm (s : Scanner) : Nat := s.keys.foldl (fun n k => min n k.2.position) s.count

/-- The tokens in front of which nothing can be put any more, and the state without them. -/
def settled (s : Scanner) : Array Token × Scanner :=
  let n := s.firm - s.passed
  (s.tokens.extract 0 n,
    { s with passed := s.passed + n, tokens := s.tokens.extract n s.tokens.size })

/-- Close the blocks that are indented deeper than a column. -/
def unwindWith (column : Int) : List Int → Scanner → Scanner
  | [], s => s
  | outer :: indents, s =>
    if column < s.indent then
      unwindWith column indents ({ s with indent := outer, indents := indents }.push .blockEnd)
    else s

/-- Close the blocks that are indented deeper than a column. Brackets suspend indentation. -/
def unwind (s : Scanner) (column : Int) : Scanner :=
  if s.inFlow then s else unwindWith column s.indents s

/-- Open a block at a column, if it is deeper than the current one. -/
def indentTo (s : Scanner) (column : Nat) : Option Scanner :=
  if s.indent < column then some { s with indent := column, indents := s.indent :: s.indents }
  else none

/-- Open a block at the cursor with the given token, if it is deeper than the current one. -/
def openBlock (s : Scanner) (t : Token) : Scanner :=
  match s.indentTo s.cursor.column with
  | some s => s.push t
  | none => s

/-- Put the tokens that announce a key in front of it, and open a block for it if need be. -/
def announce (s : Scanner) (k : PossibleKey) : Scanner :=
  let place := k.position - s.passed
  let s := { s with tokens := s.tokens.insertIdxIfInBounds place .key }
  if s.inFlow then s
  else
    match s.indentTo k.column with
    | some s => { s with tokens := s.tokens.insertIdxIfInBounds place .blockMappingStart }
    | none => s

end Scanner

namespace Scan

/-- Read from the cursor. -/
def lex {α : Type} (x : Lexing α) : Scan α := do
  let s ← get
  let (a, c) ← x.run s.cursor
  set { s with cursor := c }
  return a

/-- Append a token. -/
def push (t : Token) : Scan Unit := modify fun s => s.push t

/-- Say whether a key may start at the cursor. -/
def allowKey (allowed : Bool) : Scan Unit := modify fun s => { s with keyAllowed := allowed }

/-- Skip blanks, comments and line ends. After a line end outside of brackets a key may start. -/
def skipGapsWith : Nat → Scan Unit
  | 0 => pure ()
  | fuel + 1 => do
    let ended ← lex do
      Lexing.skipWhile (· = ' ')
      Lexing.skipComment
      Lexing.lineBreak
    if !ended.isEmpty then
      modify fun s => { s with keyAllowed := s.keyAllowed || !s.inFlow }
      skipGapsWith fuel

/-- Skip everything in front of the next token. A byte order mark may start the text. -/
def skipGaps : Scan Unit := do
  let c := (← get).cursor
  if c.index = 0 && c.peek = '\uFEFF' then lex Lexing.next
  skipGapsWith c.fuel

/-- Forget the possible keys that are out of reach; one that was required is a fault. -/
def dropStale : Scan Unit := do
  let s ← get
  if s.keys.any fun (_, k) => s.isStale k && k.required then throw .malformed
  else set { s with keys := s.keys.filter fun (_, k) => !s.isStale k }

/-- Forget the possible key of the current flow level; one that was required is a fault. -/
def dropKey : Scan Unit := do
  let s ← get
  if s.keys.any fun (l, k) => l == s.flowLevel && k.required then throw .malformed
  else set { s with keys := s.keys.filter fun (l, _) => l != s.flowLevel }

/-- The next token may be the start of a key. -/
def saveKey : Scan Unit := do
  if (← get).keyAllowed then
    dropKey
    let s ← get
    let c := s.cursor
    let required := !s.inFlow && s.indent == c.column
    let k : PossibleKey := ⟨s.count, required, c.index, c.line, c.column⟩
    set { s with keys := (s.flowLevel, k) :: s.keys }

/-- A token of `n` characters that changes nothing else. -/
def single (t : Token) (n : Nat) : Scan Unit := do
  lex (Lexing.skip n)
  push t

/-- A marker or directive at the margin: it closes all blocks. -/
def atMargin : Scan Unit := do
  modify fun s => s.unwind (-1)
  dropKey
  allowKey false

/-- The start of a bracket or brace. -/
def openFlow (t : Token) : Scan Unit := do
  saveKey
  modify fun s => { s with flowLevel := s.flowLevel + 1, keyAllowed := true }
  single t 1

/-- The end of a bracket or brace. -/
def closeFlow (t : Token) : Scan Unit := do
  dropKey
  modify fun s => { s with flowLevel := s.flowLevel - 1, keyAllowed := false }
  single t 1

/-- A comma. -/
def flowEntry : Scan Unit := do
  dropKey
  allowKey true
  single .flowEntry 1

/-- Outside of brackets, an indicator of an entry stands only where a key may start, and may open
a block. -/
def openEntry (t : Token) : Scan Unit := do
  let s ← get
  if s.inFlow then pure ()
  else if s.keyAllowed then set (s.openBlock t)
  else throw .malformed

/-- A hyphen that starts an entry of a block sequence. -/
def blockEntry : Scan Unit := do
  openEntry .blockSequenceStart
  dropKey
  allowKey true
  single .blockEntry 1

/-- A question mark that announces a key. -/
def announcedKey : Scan Unit := do
  openEntry .blockMappingStart
  dropKey
  allowKey (!(← get).inFlow)
  single .key 1

/-- A colon: it makes a key of the possible key, or else follows an announced one. -/
def keyValue : Scan Unit := do
  let s ← get
  match s.keys.find? fun (l, _) => l == s.flowLevel with
  | some (_, k) =>
    set ({ s with keys := s.keys.filter fun (l, _) => l != s.flowLevel }.announce k)
    allowKey false
  | none =>
    openEntry .blockMappingStart
    dropKey
    allowKey (!s.inFlow)
  single .value 1

/-- A lexeme that may be the start of a key. -/
def lexeme {α : Type} (x : Lexing α) (token : α → Token) : Scan Unit := do
  saveKey
  allowKey false
  push (token (← lex x))

/-- A block scalar: a key may follow it. -/
def blockScalar (folded : Bool) : Scan Unit := do
  allowKey true
  dropKey
  push (.scalar (← lex (scanBlockScalar folded (← get).indent)) false)

/-- A plain scalar: a key may follow it on a new line. -/
def plainScalar : Scan Unit := do
  saveKey
  let s ← get
  let (text, fresh) ← lex (scanPlain s.inFlow s.indent)
  allowKey fresh
  push (.scalar text true)

/-- May a plain scalar start at the cursor? -/
def atPlain : Scan Bool := do
  let s ← get
  let ch := s.cursor.peek
  if !(isGap ch || "-?:,[]\x7b\x7d#&*!|>\x27\x22%@\x60".toList.contains ch) then return true
  else
    let gapNext := isGap (← lex (Lexing.peekAt 1))
    return !gapNext && (ch = '-' || (!s.inFlow && (ch = '?' || ch = ':')))

/-- Is there a document marker at the cursor? -/
def atMarker : Scan Bool := do
  let c := (← get).cursor
  if c.column = 0 && (c.peek = '-' || c.peek = '.') then lex Lexing.atMarker else return false

/-- Does the indicator at the cursor stand alone, before a gap or, if it may, in brackets? -/
def standsAlone (ch : Char) (inFlow : Bool) : Scan Bool := do
  let s ← get
  if s.cursor.peek ≠ ch then return false
  else if inFlow && s.inFlow then return true
  else return isGap (← lex (Lexing.peekAt 1))

/-- The next token, given that the cursor stands on it. -/
def fetch : Scan Unit := do
  let s ← get
  let c := s.cursor
  let ch := c.peek
  if c.column = 0 && ch = '%' then
    atMargin
    push (.directive (← lex scanDirective))
  else if ← atMarker then
    atMargin
    single (if ch = '-' then .documentStart else .documentEnd) 3
  else if ch = '[' then openFlow .flowSequenceStart
  else if ch = '\x7b' then openFlow .flowMappingStart
  else if ch = ']' then closeFlow .flowSequenceEnd
  else if ch = '\x7d' then closeFlow .flowMappingEnd
  else if ch = ',' then flowEntry
  else if ← standsAlone '-' false then blockEntry
  else if ← standsAlone '?' true then announcedKey
  else if ← standsAlone ':' true then keyValue
  else if ch = '*' then lexeme scanName .alias
  else if ch = '&' then lexeme scanName .anchor
  else if ch = '!' then lexeme scanTag .tag
  else if ch = '|' && !s.inFlow then blockScalar false
  else if ch = '>' && !s.inFlow then blockScalar true
  else if ch = '\x27' then lexeme (scanQuoted false) (.scalar · false)
  else if ch = '\x22' then lexeme (scanQuoted true) (.scalar · false)
  else if ← atPlain then plainScalar
  else throw .malformed

/-- The end of the text closes all blocks. -/
def finish : Scan Unit := do
  modify fun s => s.unwind (-1)
  dropKey
  push .streamEnd

/-- One token, or the end of the text; tells whether more may follow. -/
def advance : Scan Bool := do
  skipGaps
  dropStale
  modify fun s => s.unwind s.cursor.column
  if (← get).cursor.rest.isEmpty then
    finish
    return false
  else
    fetch
    dropStale
    return true

end Scan

/-- The tokens after those in `seen`, up to the first fault. -/
def Scanner.runWith : Nat → (seen : Array Token) → Scanner → Array Token
  | 0, seen, _ => seen.push (.fault .malformed)
  | fuel + 1, seen, s =>
    match Scan.advance.run s with
    | .error f => seen.push (.fault f)
    | .ok (true, s) =>
      let (more, s) := s.settled
      runWith fuel (seen ++ more) s
    | .ok (false, s) => seen ++ s.tokens

/-- The tokens of a text, up to the first fault. -/
def Token.scan (e : Excerpt) : List Token :=
  (Scanner.runWith (e.text.length + 2) #[] (Scanner.start e)).toList

end Conveyor.Yaml
