import Conveyor.Text.Basic

/-!
# Wildcards inside one path segment

A pattern for one segment of a path, in the manner of a shell: `*` stands for any characters,
`?` for one, and brackets for one character out of a class.

- `Wildcard.Item`, `Wildcard.compile`: a pattern as a list of items.
- `Wildcard.accepts`: does a list of items match a text from its first to its last character?
- `Wildcard.matchesSegment`: both at once.
-/

namespace Conveyor.Wildcard

/-- One item of a class in brackets: the characters from `lo` to `hi`. -/
structure Range where
  lo : CodePoint
  hi : CodePoint
  deriving DecidableEq, Repr

/-- One item of a pattern. -/
inductive Item where
  /-- Any characters, or none. -/
  | star
  /-- Any single character. -/
  | any
  /-- This character. -/
  | lit (c : CodePoint)
  /-- A character within, or if negated within none, of the ranges. -/
  | oneOf (negated : Bool) (ranges : List Range)
  deriving DecidableEq, Repr

/-! ## Classes in brackets -/

/-- A position in the text of a class: a character, or a hyphen that spans a range. -/
inductive Mark where
  | char (c : CodePoint)
  | span
  deriving DecidableEq, Repr

/-- Cut the text of a class at the hyphens that span ranges. A hyphen does so if at least one
character stands before it, and at least two since the previous spanning hyphen. `need` counts
the characters still required, `cur` collects the current chunk in reverse. -/
def chunksFrom (need : Nat) (cur : List CodePoint) : List CodePoint → List (List CodePoint)
  | [] => [cur.reverse]
  | c :: rest =>
    if c = '-' && need == 0 then cur.reverse :: chunksFrom 2 [] rest
    else chunksFrom (need - 1) (c :: cur) rest

/-- A chunk that is empty because the text ends in a spanning hyphen gives that hyphen back to
the chunk before it. -/
def restoreHyphen : List (List CodePoint) → List (List CodePoint)
  | [] => []
  | [chunk, []] => [chunk ++ [.char '-']]
  | chunk :: rest => chunk :: restoreHyphen rest

/-- The chunks of the text of a class. A leading `!` does not count as a character. -/
def chunks (stuff : List CodePoint) : List (List CodePoint) :=
  if stuff.contains '-' then
    restoreHyphen (chunksFrom (if stuff.head? = some '!' then 2 else 1) [] stuff)
  else [stuff]

/-- Join neighbouring chunks whose range would be empty, from the right, dropping the two ends of
that range. -/
def dropEmptyRanges : List (List CodePoint) → List (List CodePoint)
  | [] => []
  | chunk :: rest =>
    match dropEmptyRanges rest with
    | [] => [chunk]
    | next :: more =>
      match chunk.getLast?, next.head? with
      | some a, some b =>
        if b < a then (chunk.dropLast ++ next.drop 1) :: more else chunk :: next :: more
      | _, _ => chunk :: next :: more

/-- The chunks with spanning hyphens between them. -/
def marks : List (List CodePoint) → List Mark
  | [] => []
  | [chunk] => chunk.map .char
  | chunk :: rest => chunk.map .char ++ .span :: marks rest

/-- The ranges of a class. A hyphen with nothing before it stands for itself. -/
def ranges : List Mark → List Range
  | [] => []
  | .char a :: .span :: .char b :: rest => ⟨a, b⟩ :: ranges rest
  | .char a :: rest => ⟨a, a⟩ :: ranges rest
  | .span :: rest => ⟨'-', '-'⟩ :: ranges rest

/-- The item that a class in brackets stands for. An empty class matches nothing, and its
negation any character. -/
def classItem (stuff : List CodePoint) : Item :=
  match marks (dropEmptyRanges (chunks stuff)) with
  | [] => .oneOf false []
  | [.char (.char '!')] => .any
  | .char (.char '!') :: rest => .oneOf true (ranges rest)
  | ms => .oneOf false (ranges ms)

/-- The text up to the closing bracket, and what follows it; `none` without such a bracket. A
bracket right after the opening one, or after the `!` there, belongs to the class. -/
def classText (cs : List CodePoint) : Option (List CodePoint × List CodePoint) :=
  let (bang, cs) := match cs with
    | .char '!' :: rest => ([CodePoint.char '!'], rest)
    | _ => ([], cs)
  let (first, cs) := match cs with
    | .char ']' :: rest => ([CodePoint.char ']'], rest)
    | _ => ([], cs)
  match cs.dropWhile (· ≠ CodePoint.char ']') with
  | [] => none
  | _ :: after => some (bang ++ first ++ cs.takeWhile (· ≠ CodePoint.char ']'), after)

/-! ## Compiling and matching -/

/-- The items of a pattern, with fuel for the length of the pattern. An opening bracket without
a closing one stands for itself. -/
def compileWith : Nat → List CodePoint → List Item
  | 0, _ => []
  | _ + 1, [] => []
  | fuel + 1, .char '*' :: rest => .star :: compileWith fuel rest
  | fuel + 1, .char '?' :: rest => .any :: compileWith fuel rest
  | fuel + 1, .char '[' :: rest =>
    match classText rest with
    | none => .lit '[' :: compileWith fuel rest
    | some (stuff, after) => classItem stuff :: compileWith fuel after
  | fuel + 1, c :: rest => .lit c :: compileWith fuel rest

/-- The items of a pattern. -/
def compile (pattern : List CodePoint) : List Item := compileWith pattern.length pattern

/-- Does an item other than `star` match this character? -/
def Item.admits : Item → CodePoint → Bool
  | .star, _ => false
  | .any, _ => true
  | .lit d, c => c == d
  | .oneOf negated rs, c => (rs.any fun r => r.lo ≤ c && c ≤ r.hi) != negated

/-- Can some suffix of the text, the whole included, be matched by `k`? -/
def onSomeSuffix (k : List CodePoint → Bool) : List CodePoint → Bool
  | [] => k []
  | c :: rest => k (c :: rest) || onSomeSuffix k rest

/-- Do the items match the whole text? -/
def accepts : List Item → List CodePoint → Bool
  | [], cs => cs.isEmpty
  | .star :: items, cs => onSomeSuffix (accepts items) cs
  | _ :: _, [] => false
  | item :: items, c :: cs => item.admits c && accepts items cs

/-- Does the pattern match the whole segment? -/
def matchesSegment (segment pattern : Text) : Bool :=
  accepts (compile pattern.toList) segment.toList

end Conveyor.Wildcard
