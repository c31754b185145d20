import Conveyor.Text.Utf8
import Conveyor.Yaml.Cursor

/-!
# YAML lexemes

The parts of a YAML text that are longer than one character: names, tags, directives and scalars
of the four kinds.

- `Yaml.scanName`: the name of an anchor or alias.
- `Yaml.TagName`, `Yaml.scanTag`: a tag by handle and suffix.
- `Yaml.Directive`, `Yaml.scanDirective`: the lines in front of a document.
- `Yaml.scanBlockScalar`, `Yaml.scanQuoted`, `Yaml.scanPlain`: scalars.
-/

namespace Conveyor.Yaml

open Conveyor.Text
open Lexing

/-- A letter, digit, hyphen or underscore, in ASCII. -/
def isNameChar (c : Char) : Bool := c.isAlphanum || c == '-' || c == '_'

/-- The name after the indicator of an anchor or alias. -/
def scanName : Lexing String := do
  next
  let name ← takeWhile isNameChar
  let ch ← peek
  if !name.isEmpty && (isGap ch || "?:,]\x7d%@\x60".toList.contains ch) then
    return String.ofList name
  else throw .malformed

/-! ## Tags -/

/-- A tag as it is written: under a handle, or in full. -/
structure TagName where
  handle : Option String
  suffix : String
  deriving DecidableEq, Repr

/-- A character of the suffix of a tag. -/
def isTagChar (c : Char) : Bool := c.isAlphanum || "-;/?:@&=+$,_.!~*\x27()[]%".toList.contains c

/-- The escaped bytes at the cursor: pairs of hexadecimal digits after percent signs. -/
def escapedBytes : Nat → Lexing (List UInt8)
  | 0 => return []
  | fuel + 1 => do
    if (← peek) ≠ '%' then return []
    else
      next
      match hexValue? (← peek) with
      | none => throw .malformed
      | some hi =>
        match hexValue? (← peekAt 1) with
        | none => throw .malformed
        | some lo =>
          skip 2
          return UInt8.ofNat (hi * 16 + lo) :: (← escapedBytes fuel)

/-- Add characters to a text that is kept with its last character first. -/
def pushAll {α : Type} (acc cs : List α) : List α := cs.reverseAux acc

/-- The suffix of a tag from the cursor on, with fuel for the length of the text. `acc` holds the
text before, the last character first. -/
def tagSuffixWith : Nat → List Char → Lexing (List Char)
  | 0, acc => return acc.reverse
  | fuel + 1, acc => do
    let ch ← peek
    if ch = '%' then
      match Utf8.decodeStrict? (← escapedBytes fuel) with
      | none => throw .malformed
      | some cs => tagSuffixWith fuel (pushAll acc cs)
    else if isTagChar ch then
      next
      tagSuffixWith fuel (ch :: acc)
    else return acc.reverse

/-- The suffix of a tag, which is not empty. -/
def scanTagSuffix : Lexing String := do
  let c ← get
  let cs ← tagSuffixWith c.fuel []
  if c.index = (← get).index then throw .malformed else return String.ofList cs

/-- The handle of a tag: an exclamation mark, or a name between two of them. -/
def scanTagHandle : Lexing String := do
  if (← peek) ≠ '!' then throw .malformed
  else if (← peekAt 1) = ' ' then
    next
    return "!"
  else
    next
    let name ← takeWhile isNameChar
    if (← peek) ≠ '!' then throw .malformed
    else
      next
      return "!" ++ String.ofList name ++ "!"

/-- Is there a second exclamation mark in the word of a tag? -/
def hasHandle : Lexing Bool := do
  let word := ((← get).rest.drop 1).takeWhile fun x => !isSpaceOrBreak x
  if word.contains '!' then return true
  else
    demand (word.length + 1)
    return false

/-- A tag in full, between angle brackets. -/
def scanVerbatim : Lexing TagName := do
  skip 2
  let suffix ← scanTagSuffix
  if (← peek) ≠ '>' then throw .malformed
  else
    next
    return ⟨none, suffix⟩

/-- A tag under a handle. -/
def scanShorthand : Lexing TagName := do
  if ← hasHandle then
    let handle ← scanTagHandle
    return ⟨some handle, ← scanTagSuffix⟩
  else
    next
    return ⟨some "!", ← scanTagSuffix⟩

/-- The exclamation mark alone. -/
def scanBareTag : Lexing TagName := do
  next
  return ⟨none, "!"⟩

/-- A tag. -/
def scanTag : Lexing TagName := do
  let ch ← peekAt 1
  let tag ← if ch = '<' then scanVerbatim else if isGap ch then scanBareTag else scanShorthand
  if isSpaceOrBreak (← peek) then return tag else throw .malformed

/-! ## Directives -/

/-- A line in front of a document. -/
inductive Directive where
  | version (major : Int)
  | handle (name start : String)
  | other
  deriving DecidableEq, Repr

/-- The rest of a line that may hold a comment only, and its end. -/
def scanLineRest : Lexing Unit := do
  skipWhile (· = ' ')
  skipComment
  if isBreakOrEnd (← peek) then
    let _ ← lineBreak
  else throw .malformed

/-- A number of a version. -/
def scanVersionNumber : Lexing Int := do
  let run := (← get).rest.takeWhile Char.isDigit
  if run.isEmpty then throw .malformed
  else
    demand run.length
    match readInt (run.map .char) with
    | .error (.tooLong n) => throw (.longInteger n)
    | .error .malformed => throw .malformed
    | .ok i =>
      skip run.length
      return i

/-- A directive, from the percent sign to the end of its line. -/
def scanDirective : Lexing Directive := do
  next
  let name ← takeWhile isNameChar
  if name.isEmpty || !isSpaceOrBreak (← peek) then throw .malformed
  else
    let d : Directive ←
      match String.ofList name with
      | "YAML" => do
        skipWhile (· = ' ')
        let major ← scanVersionNumber
        if (← peek) ≠ '.' then throw .malformed
        else
          next
          let _ ← scanVersionNumber
          if isSpaceOrBreak (← peek) then pure (.version major) else throw .malformed
      | "TAG" => do
        skipWhile (· = ' ')
        let handle ← scanTagHandle
        if (← peek) ≠ ' ' then throw .malformed
        else
          skipWhile (· = ' ')
          let start ← scanTagSuffix
          if isSpaceOrBreak (← peek) then pure (.handle handle start) else throw .malformed
      | _ => do
        skipWhile (fun x => !isBreakOrEnd x)
        pure .other
    scanLineRest
    return d

/-! ## Block scalars -/

/-- A space or a tab. -/
def isInnerGap (c : Char) : Bool := c == ' ' || c == '\t'

/-- What happens to the line ends at the end of a block scalar. -/
inductive Chomping where
  | strip
  | clip
  | keep
  deriving DecidableEq, Repr

/-- The chomping of an indicator. -/
def chompingOf? (c : Char) : Option Chomping :=
  if c = '+' then some .keep else if c = '-' then some .strip else none

/-- The indentation of an indicator: a digit other than zero. -/
def incrementOf? (c : Char) : Option Nat := if c.isDigit then some (c.toNat - 48) else none

/-- The increment of indentation at the cursor, if there is one; it is not zero. -/
def scanIncrement : Lexing (Option Nat) := do
  match incrementOf? (← peek) with
  | none => return none
  | some 0 => throw .malformed
  | some n =>
    next
    return some n

/-- The chomping at the cursor, if there is one. -/
def scanChomping : Lexing (Option Chomping) := do
  match chompingOf? (← peek) with
  | none => return none
  | some chomping =>
    next
    return some chomping

/-- The indicators after the mark of a block scalar: chomping and indentation, in either
order. -/
def scanIndicators : Lexing (Chomping × Option Nat) := do
  let (chomping, increment) ←
    match ← scanChomping with
    | some chomping => do pure (chomping, ← scanIncrement)
    | none =>
      match ← scanIncrement with
      | some n => do pure ((← scanChomping).getD .clip, some n)
      | none => pure (.clip, none)
  if isSpaceOrBreak (← peek) then return (chomping, increment) else throw .malformed

/-- Blank lines in front of a block scalar without a stated indentation: their line ends, and the
greatest column reached. `acc` holds the line ends before, the last one first. -/
def leadingBreaks : Nat → List Char → Nat → Lexing (List Char × Nat)
  | 0, acc, deepest => return (acc.reverse, deepest)
  | fuel + 1, acc, deepest => do
    let ch ← peek
    if ch = ' ' then
      next
      leadingBreaks fuel acc (max deepest (← get).column)
    else if isBreak ch then
      leadingBreaks fuel (pushAll acc (← lineBreak)) deepest
    else return (acc.reverse, deepest)

/-- Spaces up to a column. -/
def skipIndent (indent : Nat) : Nat → Lexing Unit
  | 0 => pure ()
  | fuel + 1 => do
    if (← get).column < indent && (← peek) = ' ' then
      next
      skipIndent indent fuel

/-- Blank lines inside a block scalar, and the indentation of the line after them. `acc` holds
the line ends before, the last one first. -/
def innerBreaks (indent : Nat) : Nat → List Char → Lexing (List Char)
  | 0, acc => return acc.reverse
  | fuel + 1, acc => do
    if isBreak (← peek) then
      let b ← lineBreak
      skipIndent indent indent
      innerBreaks indent fuel (pushAll acc b)
    else return acc.reverse

/-- Blank lines from the cursor on, after the indentation of the current line. -/
def breaksFrom (indent : Nat) : Lexing (List Char) := do
  skipIndent indent indent
  innerBreaks indent (← get).fuel []

/-- Does a line of a block scalar with the given indentation start at the cursor? -/
def atBlockLine (indent : Nat) : Lexing Bool := do
  let c ← get
  return c.column = indent && c.peek ≠ endMark

/-- The lines of a block scalar. `acc` holds the text before, the last character first, `breaks`
the line ends of the blank lines before this line. Answers the text, the line end of the last
line and the line ends after it. -/
def blockLines (folded : Bool) (indent : Nat) :
    Nat → (acc breaks last : List Char) → Lexing (List Char × List Char × List Char)
  | 0, acc, breaks, last => return (acc.reverse, last, breaks)
  | fuel + 1, acc, breaks, last => do
    if ← atBlockLine indent then
      let first ← peek
      let line ← takeWhile fun x => !isBreakOrEnd x
      let acc := pushAll (pushAll acc breaks) line
      let last ← lineBreak
      let breaks ← breaksFrom indent
      if ← atBlockLine indent then
        let second ← peek
        let folds := folded && last = ['\n'] && !isInnerGap first && !isInnerGap second
        let acc := if !folds then pushAll acc last else if breaks.isEmpty then
          ' ' :: acc else acc
        blockLines folded indent fuel acc breaks last
      else return (acc.reverse, last, breaks)
    else return (acc.reverse, last, breaks)

/-- A block scalar. `parent` is the indentation of the block around it. -/
def scanBlockScalar (folded : Bool) (parent : Int) : Lexing Text := do
  next
  let (chomping, increment) ← scanIndicators
  scanLineRest
  let least := (max 1 (parent + 1)).toNat
  let fuel := (← get).fuel
  let (indent, breaks) ←
    match increment with
    | some n => do
      let indent := least + n - 1
      pure (indent, ← breaksFrom indent)
    | none => do
      let (breaks, deepest) ← leadingBreaks fuel [] 0
      pure (max least deepest, breaks)
  let (text, last, breaks) ← blockLines folded indent fuel [] breaks []
  let tail := match chomping with
    | .strip => []
    | .clip => last
    | .keep => last ++ breaks
  return Text.ofChars (text ++ tail)

/-! ## Quoted scalars -/

/-- The character of an escape by a single letter. -/
def simpleEscape? (c : Char) : Option Char :=
  match c with
  | '0' => some '\x00'
  | 'a' => some '\x07'
  | 'b' => some '\x08'
  | 't' => some '\t'
  | '\t' => some '\t'
  | 'n' => some '\n'
  | 'v' => some '\x0b'
  | 'f' => some '\x0c'
  | 'r' => some '\r'
  | 'e' => some '\x1b'
  | ' ' => some ' '
  | '\x22' => some '\x22'
  | '\x5c' => some '\x5c'
  | '/' => some '/'
  | 'N' => some '\x85'
  | '_' => some '\xa0'
  | 'L' => some '\u2028'
  | 'P' => some '\u2029'
  | _ => none

/-- The number of digits of an escape by number. -/
def escapeWidth? (c : Char) : Option Nat :=
  match c with
  | 'x' => some 2
  | 'u' => some 4
  | 'U' => some 8
  | _ => none

/-- The number that exactly `n` hexadecimal digits stand for, from `k` places after the
cursor. -/
def scanHex : (n k acc : Nat) → Lexing Nat
  | 0, _, acc => return acc
  | n + 1, k, acc => do
    match hexValue? (← peekAt k) with
    | some v => scanHex n (k + 1) (acc * 16 + v)
    | none => throw .malformed

/-- The code point with a number. -/
def charOf (n : Nat) : Except Fault CodePoint :=
  if 0x7FFFFFFF < n then .error .hugeCodePoint
  else if 0x10FFFF < n then .error .codePoint
  else .ok (CodePoint.ofNat n)

/-- Line ends in a quoted scalar, with the blanks around them. A document marker at the start of
a line is a fault. `acc` holds the line ends before, the last one first. -/
def quotedBreaks : Nat → List Char → Lexing (List Char)
  | 0, acc => return acc.reverse
  | fuel + 1, acc => do
    if ← atMarker then throw .malformed
    else
      skipWhile isInnerGap
      if isBreak (← peek) then quotedBreaks fuel (pushAll acc (← lineBreak))
      else return acc.reverse

/-- A blank or the end of a line. -/
def isQuotedGap (c : Char) : Bool := c == ' ' || c == '\t' || isBreakOrEnd c

/-- An escape, from the character after the backslash on. -/
def scanEscape (fuel : Nat) : Lexing (List CodePoint) := do
  let e ← peek
  match simpleEscape? e, escapeWidth? e with
  | some x, _ =>
    next
    return [x]
  | none, some width =>
    next
    let x ← charOf (← scanHex width 0 0)
    skip width
    return [x]
  | none, none =>
    if isBreak e then
      let _ ← lineBreak
      return (← quotedBreaks fuel []).map .char
    else throw .malformed

/-- What a line end counts for, with the line ends of the blank lines after it. -/
def foldBreaks (b bs : List Char) : List Char :=
  if b ≠ ['\n'] then b ++ bs else if bs.isEmpty then [' '] else bs

/-- The text of a quoted scalar up to its closing quote, with fuel for the length of the text.
`acc` holds the text before, the last character first. -/
def quotedWith (double : Bool) : Nat → List CodePoint → Lexing (List CodePoint)
  | 0, _ => throw .malformed
  | fuel + 1, acc => do
    let ch ← peek
    if double && ch = '\x5c' then
      next
      quotedWith double fuel (pushAll acc (← scanEscape fuel))
    else if isQuotedGap ch then
      let blanks ← takeWhile isInnerGap
      let ch ← peek
      if ch = endMark then throw .malformed
      else if isBreak ch then
        let b ← lineBreak
        let bs ← quotedBreaks fuel []
        quotedWith double fuel (pushAll acc ((foldBreaks b bs).map .char))
      else quotedWith double fuel (pushAll acc (blanks.map .char))
    else if !double && ch = '\x27' then
      if (← peekAt 1) = '\x27' then
        skip 2
        quotedWith double fuel ('\x27' :: acc)
      else
        next
        return acc.reverse
    else if double && ch = '\x22' then
      next
      return acc.reverse
    else
      let run ← takeWhile fun x => !(isQuotedGap x || x = '\x27' || x = '\x22' || x = '\x5c')
      if run.isEmpty then
        next
        quotedWith double fuel (ch :: acc)
      else quotedWith double fuel (pushAll acc (run.map .char))

/-- A quoted scalar, from its opening quote to its closing one. -/
def scanQuoted (double : Bool) : Lexing Text := do
  next
  return Text.ofList (← quotedWith double (← get).fuel [])

/-! ## Plain scalars -/

/-- The indicators that end a plain scalar inside brackets or braces. -/
def isFlowIndicator (c : Char) : Bool := ",?[]\x7b\x7d".toList.contains c

/-- Does a colon followed by this character end a plain scalar? -/
def endsAfterColon (inFlow : Bool) (c : Char) : Bool :=
  isGap c || (inFlow && ",[]\x7b\x7d".toList.contains c)

/-- The characters of a plain scalar up to the next gap or indicator. -/
def plainRun (inFlow : Bool) : List Char → List Char
  | [] => []
  | c :: rest =>
    if isGap c || (c = ':' && endsAfterColon inFlow (rest.headD endMark)) ||
        (inFlow && isFlowIndicator c) then []
    else c :: plainRun inFlow rest

/-- The run of a plain scalar at the cursor. A colon behind it counts with the character
after. -/
def takePlain (inFlow : Bool) : Lexing (List Char) := do
  let run := plainRun inFlow (← get).rest
  if (← peekAt run.length) = ':' then demand (run.length + 1)
  skip run.length
  return run

/-- Blank lines between two lines of a plain scalar; `none` at a document marker. `acc` holds the
line ends before, the last one first. -/
def plainBreaks : Nat → List Char → Lexing (Option (List Char))
  | 0, acc => return some acc.reverse
  | fuel + 1, acc => do
    let ch ← peek
    if ch = ' ' then
      next
      plainBreaks fuel acc
    else if isBreak ch then
      let b ← lineBreak
      if ← atMarker then return none else plainBreaks fuel (pushAll acc b)
    else return some acc.reverse

/-- The gap after a run of a plain scalar: the characters it counts for, none if the scalar ends
here, and whether a line ended in it. -/
def plainGap : Lexing (List Char × Bool) := do
  let spaces ← takeWhile (· = ' ')
  if isBreak (← peek) then
    let b ← lineBreak
    if ← atMarker then return ([], true)
    else
      match ← plainBreaks (← get).fuel [] with
      | none => return ([], true)
      | some bs => return (foldBreaks b bs, true)
  else return (spaces, false)

/-- The text of a plain scalar. `acc` holds the text before, the last character first; `gap` is
what stands between it and the next run, and `fresh` tells whether a line ended since the last
run. -/
def plainWith (inFlow : Bool) (indent : Int) :
    Nat → (acc gap : List Char) → (fresh : Bool) → Lexing (List Char × Bool)
  | 0, acc, _, fresh => return (acc.reverse, fresh)
  | fuel + 1, acc, gap, fresh => do
    if (← peek) = '#' then return (acc.reverse, fresh)
    else
      let run ← takePlain inFlow
      if run.isEmpty then return (acc.reverse, fresh)
      else
        let acc := pushAll (pushAll acc gap) run
        let (gap, fresh) ← plainGap
        let c ← get
        if gap.isEmpty || c.peek = '#' || (!inFlow && (c.column : Int) < indent) then
          return (acc.reverse, fresh)
        else plainWith inFlow indent fuel acc gap fresh

/-- A plain scalar, and whether the cursor stands at the start of a new line after it. `parent`
is the indentation of the block around it. -/
def scanPlain (inFlow : Bool) (parent : Int) : Lexing (Text × Bool) := do
  let (cs, fresh) ← plainWith inFlow (parent + 1) (← get).fuel [] [] false
  return (Text.ofChars cs, fresh)

end Conveyor.Yaml
