import Conveyor.Text.Pieces
import Conveyor.Trigger.Wildcard

/-!
# Trigger rules

A rule decides whether a change starts a run: its branch must be included, and at least one
changed path must escape every exclude pattern.

- `PathPolicy`: whether a pattern that matches a directory also excludes what is beneath it.
- `TriggerRule`: the included branches, the exclude patterns and the policy.
- `segments`: the parts of a path or pattern between slashes.
- `matchSegments`: patterns against paths, segment by segment; `**` stands for any segments.
- `pathMatches`, `TriggerRule.excludes`, `TriggerRule.triggers`: from one pattern to the verdict.
-/

namespace Conveyor

open Conveyor.Text

/-- What a pattern that matches a directory says about the paths beneath it. -/
inductive PathPolicy where
  /-- Nothing. -/
  | shallow
  /-- They are matched too. -/
  | recursive
  deriving DecidableEq, Repr, Inhabited

/-- The word for a policy in a document. -/
def PathPolicy.word : PathPolicy → Text
  | .shallow => "shallow"
  | .recursive => "recursive"

/-- The policy with the given word. -/
def PathPolicy.ofWord? (word : Text) : Option PathPolicy :=
  if word = "shallow" then some .shallow
  else if word = "recursive" then some .recursive
  else none

/-- When a change starts a run. -/
structure TriggerRule where
  branches : List Text
  excludedPaths : List Text
  policy : PathPolicy
  deriving DecidableEq, Repr

/-- The start of a full reference to a branch. -/
def branchReference : Text := "refs/heads/"

/-- A branch by its short name. -/
def shortBranch (branch : Text) : Text :=
  match dropStart? branchReference.toList branch.toList with
  | some rest => Text.ofList rest
  | none => branch

/-- The parts of a path between slashes, without the empty ones and those that stand for the
directory itself. -/
def segments (path : Text) : List Text :=
  ((splitAt '/' path.toList).map Text.ofList).filter fun part => part ≠ "" && part ≠ "."

/-- Does some tail of the list, the whole included, satisfy `k`? -/
def anyTail {α : Type} (k : List α → Bool) : List α → Bool
  | [] => k []
  | x :: xs => k (x :: xs) || anyTail k xs

/-- Do the pattern's segments match the path's, for a given way to match one segment? -/
def matchSegmentsWith (matchOne : Text → Text → Bool) : List Text → List Text → Bool
  | [], path => path.isEmpty
  | head :: rest, path =>
    if head = "**" then anyTail (matchSegmentsWith matchOne rest) path
    else
      match path with
      | [] => false
      | part :: parts => matchOne part head && matchSegmentsWith matchOne rest parts

/-- Does a pattern match a path, for a given way to match one segment? Under the recursive policy
a match of a proper, non-empty beginning of the path suffices. -/
def pathMatchesWith (matchOne : Text → Text → Bool) (path pattern : Text)
    (policy : PathPolicy) : Bool :=
  let parts := segments path
  let wanted := segments pattern
  matchSegmentsWith matchOne wanted parts ||
    match policy with
    | .shallow => false
    | .recursive =>
      (List.range parts.length).any fun depth =>
        depth != 0 && matchSegmentsWith matchOne wanted (parts.take depth)

/-- Does a pattern match a path? -/
def pathMatches (path pattern : Text) (policy : PathPolicy) : Bool :=
  pathMatchesWith Wildcard.matchesSegment path pattern policy

namespace TriggerRule

/-- Does some exclude pattern match the path? -/
def excludes (rule : TriggerRule) (path : Text) : Bool :=
  rule.excludedPaths.any fun pattern => pathMatches path pattern rule.policy

/-- Does a change on this branch and these paths start a run? A change without known paths does
if its branch is included. -/
def triggers (rule : TriggerRule) (branch : Text) (paths : List Text) : Bool :=
  (rule.branches.map shortBranch).contains (shortBranch branch) &&
    (paths.isEmpty || paths.any fun path => !rule.excludes path)

end TriggerRule

end Conveyor
