import Conveyor.Calendar.Iso
import Conveyor.Result
import Conveyor.Value

/-!
# Records

Results as they are stored and printed: plain mappings whose fields may hold any value, since a
record may come from outside.

- `StepRecord`, `JobRecord`, `RunRecord`.
- `RunRecord.toValue`: the mapping of a record; `RunRecord.summary`: the same without the jobs.
- `RunRecord.ofValue`: the record of a mapping. Required fields are looked for in order, the
  parts of a record are read before its times.
- `RunRecord.ofResult`: the record of a result.
-/

namespace Conveyor

/-- A step as a record. -/
structure StepRecord where
  index : Value
  displayName : Value
  status : Value
  exitCode : Value
  durationMs : Value
  output : Value
  truncated : Bool
  deriving BEq, Repr

/-- A job as a record. -/
structure JobRecord where
  jobId : Value
  status : Value
  steps : List StepRecord
  templateName : Value
  variant : Value
  startedAt : Option Stamp
  finishedAt : Option Stamp
  deriving BEq, Repr

/-- A run as a record. -/
structure RunRecord where
  runId : Value
  status : Value
  jobs : List JobRecord
  branch : Value
  startedAt : Option Stamp
  finishedAt : Option Stamp
  deriving BEq, Repr

/-- Why a value is not a record. -/
inductive RecordFault where
  /-- A required field is missing. -/
  | missing (key : Text)
  /-- A part has the wrong kind of value. -/
  | wrongKind
  /-- A time cannot be read. -/
  | time (fault : StampFault)
  deriving DecidableEq, Repr

/-- Why a value is not a record, in words. -/
def RecordFault.message : RecordFault → Text
  | missing key => key
  | wrongKind => ""
  | time fault => fault.message

/-- Reading a record. -/
abbrev RecordReading := Except RecordFault

/-- The fields of a mapping. -/
def fieldsOf : Value → RecordReading (List Value.Entry)
  | .map entries => .ok entries
  | _ => .error .wrongKind

/-- A required field. -/
def requiredField (entries : List Value.Entry) (key : Text) : RecordReading Value :=
  match Value.lookup key entries with
  | some v => .ok v
  | none => .error (.missing key)

/-- A field with a default. -/
def fieldOr (entries : List Value.Entry) (key : Text) (absent : Value) : Value :=
  (Value.lookup key entries).getD absent

/-- A time, if there is one. -/
def timeOf (v : Value) : RecordReading (Option Stamp) :=
  if v.isTruthy then
    match v with
    | .text s =>
      match Stamp.read s with
      | .ok t => .ok (some t)
      | .error fault => .error (.time fault)
    | _ => .error .wrongKind
  else .ok none

/-- The items of a sequence. A text is the sequence of its characters, a mapping that of its
keys. -/
def itemsOf : Value → RecordReading (List Value)
  | .list items => .ok items
  | .text s => .ok (s.toList.map fun c => .text (Text.ofList [c]))
  | .map entries => .ok (entries.map Prod.fst)
  | _ => .error .wrongKind

/-- The value of a time. -/
def timeValue : Option Stamp → Value
  | some t => .text t.text
  | none => .null

/-- The value of an optional text. -/
def textValue : Option Text → Value
  | some s => .text s
  | none => .null

/-- A mapping with texts as keys. -/
def mapping (fields : List (Text × Value)) : Value :=
  .map (fields.map fun f => (.text f.1, f.2))

namespace StepRecord

/-- The mapping of a step. -/
def toValue (s : StepRecord) : Value :=
  mapping
    [("index", s.index), ("display_name", s.displayName), ("status", s.status),
     ("exit_code", s.exitCode), ("duration_ms", s.durationMs), ("output", s.output),
     ("truncated", .bool s.truncated)]

/-- The step of a mapping. -/
def ofValue (v : Value) : RecordReading StepRecord := do
  let fields ← fieldsOf v
  .ok
    { index := ← requiredField fields "index"
      displayName := ← requiredField fields "display_name"
      status := ← requiredField fields "status"
      exitCode := fieldOr fields "exit_code" .null
      durationMs := fieldOr fields "duration_ms" (.int 0)
      output := fieldOr fields "output" (.text "")
      truncated := (fieldOr fields "truncated" (.bool false)).isTruthy }

/-- The record of a result. -/
def ofResult (r : StepResult) : StepRecord :=
  { index := .int r.index
    displayName := .text r.displayName
    status := .text r.status.word
    exitCode := (r.exitCode.map Value.int).getD .null
    durationMs := .int r.durationMs
    output := .text r.output
    truncated := r.truncated }

end StepRecord

namespace JobRecord

/-- The mapping of a job. -/
def toValue (j : JobRecord) : Value :=
  mapping
    [("job_id", j.jobId), ("status", j.status), ("template_name", j.templateName),
     ("variant", j.variant), ("started_at", timeValue j.startedAt),
     ("finished_at", timeValue j.finishedAt), ("steps", .list (j.steps.map StepRecord.toValue))]

/-- The job of a mapping. -/
def ofValue (v : Value) : RecordReading JobRecord := do
  let fields ← fieldsOf v
  let jobId ← requiredField fields "job_id"
  let status ← requiredField fields "status"
  let steps ← (← itemsOf (fieldOr fields "steps" (.list []))).mapM StepRecord.ofValue
  .ok
    { jobId := jobId
      status := status
      steps := steps
      templateName := fieldOr fields "template_name" .null
      variant := fieldOr fields "variant" .null
      startedAt := ← timeOf (fieldOr fields "started_at" .null)
      finishedAt := ← timeOf (fieldOr fields "finished_at" .null) }

/-- The record of a result. -/
def ofResult (r : JobResult) : JobRecord :=
  { jobId := .text r.jobId
    status := .text r.status.word
    steps := r.steps.map StepRecord.ofResult
    templateName := .text r.templateName
    variant := textValue r.variant
    startedAt := r.startedAt
    finishedAt := some r.finishedAt }

end JobRecord

namespace RunRecord

/-- The fields of a run without its jobs. -/
def headFields (r : RunRecord) : List (Text × Value) :=
  [("run_id", r.runId), ("status", r.status), ("branch", r.branch),
   ("started_at", timeValue r.startedAt), ("finished_at", timeValue r.finishedAt)]

/-- The mapping of a run. -/
def toValue (r : RunRecord) : Value :=
  mapping (r.headFields ++ [(("jobs" : Text), .list (r.jobs.map JobRecord.toValue))])

/-- The mapping of a run for listings: the number of its jobs instead of the jobs. -/
def summary (r : RunRecord) : Value :=
  mapping (r.headFields ++ [(("job_count" : Text), .int r.jobs.length)])

/-- The run of a mapping. -/
def ofValue (v : Value) : RecordReading RunRecord := do
  let fields ← fieldsOf v
  let runId ← requiredField fields "run_id"
  let status ← requiredField fields "status"
  let jobs ← (← itemsOf (fieldOr fields "jobs" (.list []))).mapM JobRecord.ofValue
  .ok
    { runId := runId
      status := status
      jobs := jobs
      branch := fieldOr fields "branch" .null
      startedAt := ← timeOf (fieldOr fields "started_at" .null)
      finishedAt := ← timeOf (fieldOr fields "finished_at" .null) }

/-- The record of a result. -/
def ofResult (r : RunResult) : RunRecord :=
  { runId := .text r.runId
    status := .text r.status.word
    jobs := r.jobs.map JobRecord.ofResult
    branch := .text r.branch
    startedAt := some r.startedAt
    finishedAt := some r.finishedAt }

/-- Is a status one of the given words? -/
def isWord (words : List Text) : Value → Bool
  | .text s => words.contains s
  | _ => false

/-- The status of a run from those of its jobs; statuses that cannot be looked up among words
are refused. -/
def verdict (r : RunRecord) : RecordReading Text :=
  let statuses := r.jobs.map JobRecord.status
  if statuses.any fun s => !s.isKey then .error .wrongKind
  else if statuses.any (isWord [JobStatus.failed.word, JobStatus.timedOut.word]) then
    .ok RunStatus.failed.word
  else if statuses.any (isWord [JobStatus.canceled.word]) then .ok RunStatus.canceled.word
  else .ok RunStatus.success.word

/-- The exit code for a run. -/
def exitCode (r : RunRecord) : Int :=
  if isWord [RunStatus.success.word, RunStatus.skipped.word] r.status then exitSuccess
  else if isWord [RunStatus.canceled.word] r.status then exitCanceled
  else exitFailed

end RunRecord

end Conveyor
