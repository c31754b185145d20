import Conveyor.Document.Basic
import Conveyor.Text.Blank
import Conveyor.Value.Knot

/-!
# Reading documents

From a decoded value to a document. The parts are read in a fixed order, and the first fault
found is the answer.

- `readMapping`, `readTexts`, `readVariables`, `requiredText`: the recurring shapes. A collection
  may be a reference, which is followed.
- `readStep`, `readJob`, `readTrigger`: the parts of a document.
- `PipelineDocument.ofKnotted`, `PipelineDocument.ofValue`: the whole, with and without
  references.
-/

namespace Conveyor

open Conveyor.Text

/-- Reading that stops at the first fault. -/
abbrev Reading (α : Type) := Except DocumentFault α

/-- The entries of a mapping; nothing at all is an empty mapping. -/
def readMapping (ks : Knots) (place : Text) (v : Value) : Reading (List Value.Entry) :=
  match ks.follow v with
  | .null => .ok []
  | .map entries => .ok entries
  | v => .error (.notAMapping place v.typeName)

/-- The texts of a list that holds nothing else. -/
def allTexts? : List Value → Option (List Text)
  | [] => some []
  | .text s :: rest => (allTexts? rest).map (s :: ·)
  | _ :: _ => none

/-- A list of texts; nothing at all is an empty list. -/
def readTexts (ks : Knots) (place : Text) (v : Value) : Reading (List Text) :=
  match ks.follow v with
  | .null => .ok []
  | .list items =>
    match allTexts? items with
    | some texts => .ok texts
    | none => .error (.notTexts place)
  | _ => .error (.notTexts place)

/-- The text of a value as the text of a key or of a variable. -/
def written (v : Value) : Reading Text :=
  if v.hasUnwritable then .error .unwritableInteger else .ok v.plainText

/-- The text of a variable's value; truth values are written in lower case. -/
def readScalar (place : Text) (key : Value) : Value → Reading Text
  | .null => do .error (.notAScalar place (← written key))
  | .list _ => do .error (.notAScalar place (← written key))
  | .map _ => do .error (.notAScalar place (← written key))
  | .again _ _ => do .error (.notAScalar place (← written key))
  | .bool b => do
    let _ ← written key
    .ok (if b then "true" else "false")
  | v => do
    let _ ← written key
    written v

/-- The variables of a sequence of entries, on top of those read so far. -/
def readEntries (place : Text) : Bindings → List Value.Entry → Reading Bindings
  | acc, [] => .ok acc
  | acc, (key, value) :: rest => do
    let text ← readScalar place key value
    readEntries place (acc.put key.plainText text) rest

/-- Variables: a mapping of scalars. -/
def readVariables (ks : Knots) (place : Text) (v : Value) : Reading Bindings := do
  readEntries place [] (← readMapping ks place v)

/-- The items of a list that must not be empty. -/
def readItems (ks : Knots) (fault : DocumentFault) (v : Value) : Reading (List Value) :=
  match ks.follow v with
  | .list [] => .error fault
  | .list items => .ok items
  | _ => .error fault

/-- A text that must be there and not be empty. -/
def requiredText (place key : Text) (entries : List Value.Entry) : Reading Text :=
  match Value.lookup key entries with
  | some (.text s) => if s = "" then .error (.missingText place key) else .ok s
  | _ => .error (.missingText place key)

/-- A value as a message shows it, with all that is in it. -/
def shownWhole (v : Value) : Reading Text :=
  if v.hasUnwritable then .error .unwritableInteger
  else if Value.maxShownDepth < v.depth then .error .tooDeep
  else .ok v.shown

/-- Texts in order, each once. -/
def distinctTexts (xs : List Text) : List Text := sortTexts xs.eraseDups

/-- When a change starts a run. -/
def readTrigger (ks : Knots) (v : Value) : Reading TriggerRule := do
  let entries ← readMapping ks "trigger" v
  let branches ← readTexts ks "trigger.branches" (Value.getD entries "branches")
  if branches.isEmpty then .error .noBranches
  else
    let policy := (Value.lookup "path_policy" entries).getD (.text "shallow")
    let known := match policy with
      | .text s => PathPolicy.ofWord? s
      | _ => none
    match known with
    | none =>
      do .error (.unknownPolicy (← shownWhole (ks.unfold policy)))
    | some policy =>
      let excluded ← readTexts ks "trigger.exclude_paths" (Value.getD entries "exclude_paths")
      .ok ⟨distinctTexts branches, excluded, policy⟩

/-- The name of a step without one: the first line of its script. -/
def defaultName (script : Text) : Text := Text.ofList (firstLine (trim script.toList))

/-- One step. -/
def readStep (ks : Knots) (place : Text) (v : Value) : Reading StepSpec := do
  let entries ← readMapping ks place v
  let script ← requiredText place "script" entries
  if allBlank script then .error (.blankScript place)
  else
    let additive ← readTexts ks (place ++ ".additive") (Value.getD entries "additive")
    let env ← readVariables ks (place ++ ".env") (Value.getD entries "env")
    let name ← match Value.getD entries "display_name" with
      | .null => .ok (defaultName script)
      | .text s => if s = "" then .error (.badDisplayName place) else .ok s
      | _ => .error (.badDisplayName place)
    let stray := additive.filter fun n => !env.names.contains n
    if stray.isEmpty then .ok ⟨name, script, env, distinctTexts additive⟩
    else .error (.strayAdditive place (distinctTexts stray))

/-- The steps of a job, numbered from `i`. -/
def readSteps (ks : Knots) (place : Text) : Nat → List Value → Reading (List StepSpec)
  | _, [] => .ok []
  | i, v :: rest => do
    let step ← readStep ks (place ++ ".steps[" ++ Nat.repr i ++ "]") v
    .ok (step :: (← readSteps ks place (i + 1) rest))

/-- The time limit of a job without one, in minutes. -/
def defaultTimeoutMinutes : Int := 60

/-- A time limit in minutes is a number that is not known to be zero or negative. -/
def checkTimeout (place : Text) : Value → Reading Value
  | .int i => if i ≤ 0 then .error (.badTimeout place) else .ok (.int i)
  | .float x => if x.isNonPositive then .error (.badTimeout place) else .ok (.float x)
  | _ => .error (.badTimeout place)

/-- Seconds in a minute. -/
def secondsPerMinute : Binary64 := Binary64.ofInt 60

/-- A time limit in seconds. -/
def timeoutSeconds : Value → Reading Binary64
  | .int i =>
    match Binary64.ofInt? i with
    | some x => .ok (x.mul secondsPerMinute)
    | none => .error .timeoutOverflow
  | .float x => .ok (x.mul secondsPerMinute)
  | _ => .error .timeoutOverflow

/-- Put a variant into a matrix; an equal name keeps its place and takes the new bindings. -/
def putVariant (name : Text) (b : Bindings) : List (Text × Bindings) →
    List (Text × Bindings)
  | [] => [(name, b)]
  | (n, c) :: rest => if n = name then (n, b) :: rest else (n, c) :: putVariant name b rest

/-- The variants of a matrix, on top of those read so far. -/
def readVariants (ks : Knots) (place : Text) :
    List (Text × Bindings) → List Value.Entry → Reading (List (Text × Bindings))
  | acc, [] => .ok acc
  | acc, (key, value) :: rest => do
    let name ← written key
    let bindings ← readVariables ks (place ++ ".matrix." ++ name) value
    readVariants ks place (putVariant name bindings acc) rest

/-- The pool image of a job without one. -/
def defaultPoolImage : Value := .text "default"

/-- One job, the `index`-th of the document. -/
def readJob (ks : Knots) (index : Nat) (v : Value) : Reading JobTemplate := do
  let place : Text := "jobs[" ++ Nat.repr index ++ "]"
  let entries ← readMapping ks place v
  let name ← requiredText place "name" entries
  let place := "job " ++ name
  let timeout ← checkTimeout place
    ((Value.lookup "timeout_minutes" entries).getD (.int defaultTimeoutMinutes))
  let containerImage ← match Value.getD entries "container_image" with
    | .null => .ok none
    | .text s => .ok (some s)
    | _ => .error (.badContainerImage place)
  let matrix ← readMapping ks (place ++ ".matrix") (Value.getD entries "matrix")
  let variants ← readVariants ks place [] matrix
  let raw ← readItems ks (.noSteps place) (Value.getD entries "steps")
  let pool := Value.getD entries "pool_image"
  let steps ← readSteps ks place 0 raw
  let seconds ← timeoutSeconds timeout
  let jobVariables ← readVariables ks (place ++ ".variables") (Value.getD entries "variables")
  .ok
    { name := name
      platform := ⟨if pool.isTruthy then ks.unfold pool else defaultPoolImage, containerImage⟩
      steps := steps
      timeoutSeconds := seconds
      jobVariables := jobVariables
      variants := variants }

/-- The jobs of a document, numbered from `i`. -/
def readJobs (ks : Knots) : Nat → List Value → Reading (List JobTemplate)
  | _, [] => .ok []
  | i, v :: rest => do
    let job ← readJob ks i v
    .ok (job :: (← readJobs ks (i + 1) rest))

/-- The names that occur more than once. -/
def repeated (names : List Text) : List Text :=
  distinctTexts (names.filter fun n => 1 < names.count n)

/-- The document that a decoded value stands for, given the collections behind its references. -/
def PipelineDocument.ofKnotted (ks : Knots) (v : Value) : Reading PipelineDocument := do
  let entries ← readMapping ks "document" v
  let raw ← readItems ks .noJobs (Value.getD entries "jobs")
  let jobs ← readJobs ks 0 raw
  let names := repeated (jobs.map JobTemplate.name)
  if names.isEmpty then
    let trigger ← readTrigger ks (Value.getD entries "trigger")
    let sharedVariables ← readVariables ks "variables" (Value.getD entries "variables")
    .ok ⟨trigger, jobs, sharedVariables⟩
  else .error (.duplicateJobs names)

/-- The document that a decoded value without references stands for. -/
def PipelineDocument.ofValue (v : Value) : Reading PipelineDocument :=
  PipelineDocument.ofKnotted [] v

end Conveyor
