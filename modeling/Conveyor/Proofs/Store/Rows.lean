import Conveyor.Proofs.Calendar.Reading
import Conveyor.Proofs.Value
import Conveyor.Store.Basic

/-!
# Rows of well-formed records

A record whose fields hold what they are declared to hold is kept as it is, if its texts can be
written in UTF-8 and its integers fit: its row can be made, and the record that is read from the
row is the same.

- `StepRecord.Storable`, `JobRecord.Storable`, `RunRecord.Storable`: records with texts of
  characters where texts are declared, integers of 64 bits, and points in time that exist.
- `StepRecord.texts`, `JobRecord.texts`, `RunRecord.texts`: all texts of a record.
- `StepRecord.stored`, `JobRecord.stored`, `RunRecord.stored`: their rows; `Store.stepRow_eq`,
  `Store.jobRow_eq`, `Store.runRow_eq` show that these are made.
- `Store.stepRecord_row`, `Store.jobRecord_row`: **the records that are read from these rows**.
-/

namespace Conveyor

/-! ## Values and cells -/

namespace Value

/-- An integer of 64 bits. -/
def IsWord (v : Value) : Prop := ∃ i, v = .int i ∧ Cell.fits i = true

/-- An integer of 64 bits, or nothing. -/
def IsWordOrNull (v : Value) : Prop := v = .null ∨ v.IsWord

/-- The cell of a text of characters or an integer; anything else has none. -/
def cell : Value → Cell
  | .text s => (s.string?.map .text).getD .null
  | .int i => .int i
  | _ => .null

variable {v w : Value} {position : Nat}

@[simp] theorem cell_ofString (s : String) : (text (.ofString s)).cell = .text s := by
  rw [cell, Text.string?_ofString, Option.map_some, Option.getD_some]

theorem IsWord.orNull (h : v.IsWord) : v.IsWordOrNull := .inr h

theorem IsStringOrNull.ofValue (h : v.IsStringOrNull) :
    Cell.ofValue position v = .ok v.cell := by
  rcases h with rfl | ⟨s, rfl⟩
  · rfl
  · rw [cell_ofString, Cell.ofValue, Cell.ofText_ofString]

theorem IsWordOrNull.ofValue (h : v.IsWordOrNull) : Cell.ofValue position v = .ok v.cell := by
  rcases h with rfl | ⟨i, rfl, hfits⟩
  · rfl
  · exact if_pos hfits

theorem IsStringOrNull.asText (h : v.IsStringOrNull) : v.cell.asText = v.cell := by
  rcases h with rfl | ⟨s, rfl⟩
  · rfl
  · rw [cell_ofString]
    rfl

theorem IsWordOrNull.asInteger (h : v.IsWordOrNull) : v.cell.asInteger = v.cell := by
  rcases h with rfl | ⟨i, rfl, -⟩ <;> rfl

theorem IsStringOrNull.toValue (h : v.IsStringOrNull) : v.cell.toValue = v := by
  rcases h with rfl | ⟨s, rfl⟩
  · rfl
  · rw [cell_ofString, Cell.toValue]

theorem IsWordOrNull.toValue (h : v.IsWordOrNull) : v.cell.toValue = v := by
  rcases h with rfl | ⟨i, rfl, -⟩ <;> rfl

/-- Texts of which one cannot be written have no cells. -/
theorem ofValues_eq_error {vs : List Value} {t : Text} (hvs : ∀ v ∈ vs, v.IsTextOrNull)
    (h : Text.firstUnencodable (textsAmong vs) = some t) (position : Nat) :
    Cell.ofValues position vs = .error (.unencodable t) := by
  induction vs generalizing position with
  | nil => cases h
  | cons v vs ih =>
    have hrest := ih fun w hw => hvs w (List.mem_cons_of_mem v hw)
    rw [Cell.ofValues]
    rcases hvs v List.mem_cons_self with rfl | ⟨s, rfl⟩
    · rw [show Cell.ofValue position .null = .ok .null from rfl]
      simp only [bind, Except.bind, hrest h]
    · cases hs : s.string? with
      | none =>
        obtain rfl : s = t := by
          simpa [Text.firstUnencodable, textsAmong, text?, hs] using h
        rw [Cell.ofValue, Cell.ofText, hs]
        rfl
      | some w =>
        have hnext : Text.firstUnencodable (textsAmong vs) = some t := by
          simpa [Text.firstUnencodable, textsAmong, text?, hs] using h
        rw [Cell.ofValue, Cell.ofText, hs]
        simp only [bind, Except.bind, hrest hnext]

/-- A text is not nothing. -/
theorem IsString.cell_ne_null (h : v.IsString) : v.cell ≠ .null := by
  obtain ⟨s, rfl⟩ := h
  simp [cell]

theorem IsWord.cell_ne_null (h : v.IsWord) : v.cell ≠ .null := by
  obtain ⟨i, rfl, -⟩ := h
  simp [cell]

end Value

/-- A time is read back from its cell. -/
theorem Store.readTime_timeCell {t : Option Stamp} (h : ∀ s ∈ t, s.Valid) :
    readTime (timeCell t) = t := by
  cases t with
  | none => rfl
  | some s =>
    rw [timeCell, readTime, (h s rfl).read_text]
    rfl

/-! ## Records -/

/-- A step whose fields hold what they are declared to hold, in texts of characters and integers
of 64 bits. -/
structure StepRecord.Storable (s : StepRecord) : Prop where
  index : s.index.IsWord
  displayName : s.displayName.IsString
  status : s.status.IsString
  exitCode : s.exitCode.IsWordOrNull
  durationMs : s.durationMs.IsWord
  output : s.output.IsString

/-- A job whose fields hold what they are declared to hold, in texts of characters, and whose
steps can be stored. -/
structure JobRecord.Storable (j : JobRecord) : Prop where
  jobId : j.jobId.IsString
  status : j.status.IsString
  steps : ∀ s ∈ j.steps, s.Storable
  templateName : j.templateName.IsStringOrNull
  variant : j.variant.IsStringOrNull
  startedAt : ∀ t ∈ j.startedAt, t.Valid
  finishedAt : ∀ t ∈ j.finishedAt, t.Valid

/-- A job without its steps. -/
def JobRecord.bare (j : JobRecord) : JobRecord := { j with steps := [] }

theorem JobRecord.Storable.bare {j : JobRecord} (h : j.Storable) : j.bare.Storable :=
  { h with steps := nofun }

/-- A run whose fields hold what they are declared to hold, in texts of characters. -/
structure RunRecord.Storable (r : RunRecord) : Prop where
  runId : r.runId.IsString
  status : r.status.IsString
  branch : r.branch.IsStringOrNull
  startedAt : ∀ t ∈ r.startedAt, t.Valid
  finishedAt : ∀ t ∈ r.finishedAt, t.Valid

/-- A run whose fields hold what they are declared to hold. -/
structure RunRecord.Declared (r : RunRecord) : Prop where
  runId : r.runId.IsText
  status : r.status.IsText
  branch : r.branch.IsTextOrNull
  startedAt : ∀ t ∈ r.startedAt, t.Valid
  finishedAt : ∀ t ∈ r.finishedAt, t.Valid

/-- A run whose texts can all be written. -/
theorem RunRecord.Declared.storable {r : RunRecord} (h : r.Declared)
    (hall : Text.firstUnencodable (Value.textsAmong [r.runId, r.status, r.branch]) = none) :
    r.Storable where
  runId := h.runId.isString (by simp) hall
  status := h.status.isString (by simp) hall
  branch := by
    rcases h.branch with hnull | htext
    · exact .inl hnull
    · exact .inr (htext.isString (by simp) hall)
  startedAt := h.startedAt
  finishedAt := h.finishedAt

/-- The texts of a step. -/
def StepRecord.texts (s : StepRecord) : List Text :=
  Value.textsAmong [s.displayName, s.status, s.output]

/-- The texts of a job and of its steps. -/
def JobRecord.texts (j : JobRecord) : List Text :=
  Value.textsAmong [j.jobId, j.status, j.templateName, j.variant] ++
    j.steps.flatMap StepRecord.texts

/-- The texts of a run and of its jobs. -/
def RunRecord.texts (r : RunRecord) : List Text :=
  Value.textsAmong [r.runId, r.status, r.branch] ++ r.jobs.flatMap JobRecord.texts

/-- The row of a step. -/
def StepRecord.stored (runId : String) (jobId : Value) (s : StepRecord) : StepRow :=
  { runId := .text runId
    jobId := jobId.cell
    index := s.index.cell
    displayName := s.displayName.cell
    status := s.status.cell
    exitCode := s.exitCode.cell
    durationMs := s.durationMs.cell
    output := s.output.cell
    truncated := s.truncated }

/-- The row of a job. -/
def JobRecord.stored (runId : String) (position : Int) (j : JobRecord) : JobRow :=
  { runId := .text runId
    jobId := j.jobId.cell
    position := position
    status := j.status.cell
    templateName := j.templateName.cell
    variant := j.variant.cell
    startedAt := Store.timeCell j.startedAt
    finishedAt := Store.timeCell j.finishedAt }

/-- The row of a run. -/
def RunRecord.stored (r : RunRecord) : RunRow :=
  { id := r.runId.cell
    status := r.status.cell
    branch := r.branch.cell
    startedAt := Store.timeCell r.startedAt
    finishedAt := Store.timeCell r.finishedAt }

namespace Store

variable {runId : String}

theorem stepRow_eq {s : StepRecord} {jobId : Value} (h : s.Storable) (hjob : jobId.IsString) :
    stepRow runId jobId s = .ok (s.stored runId jobId) := by
  simp [stepRow, StepRecord.stored, Cell.ofValues, bind, Except.bind, hjob.orNull.ofValue,
    h.index.orNull.ofValue, h.displayName.orNull.ofValue, h.status.orNull.ofValue,
    h.exitCode.ofValue,
    h.durationMs.orNull.ofValue, h.output.orNull.ofValue, hjob.orNull.asText,
    h.index.orNull.asInteger, h.displayName.orNull.asText, h.status.orNull.asText,
    h.exitCode.asInteger, h.durationMs.orNull.asInteger, h.output.orNull.asText]

theorem jobRow_eq {j : JobRecord} {position : Int} (h : j.Storable) :
    jobRow runId position j = .ok (j.stored runId position) := by
  have hnull : ∀ position, Cell.ofValue position .null = .ok .null := fun _ => rfl
  simp [jobRow, JobRecord.stored, Cell.ofValues, bind, Except.bind, hnull,
      h.jobId.orNull.ofValue,
    h.status.orNull.ofValue, h.templateName.ofValue, h.variant.ofValue, h.jobId.orNull.asText,
    h.status.orNull.asText, h.templateName.asText, h.variant.asText]

theorem runRow_eq {r : RunRecord} (h : r.Storable) : runRow r = .ok r.stored := by
  simp [runRow, RunRecord.stored, Cell.ofValues, bind, Except.bind, h.runId.orNull.ofValue,
    h.status.orNull.ofValue, h.branch.ofValue, h.runId.orNull.asText, h.status.orNull.asText,
    h.branch.asText]

/-- The record of the row of a step is that step. -/
theorem stepRecord_row {s : StepRecord} (jobId : Value) (h : s.Storable) :
    stepRecord (s.stored runId jobId) = s := by
  simp [stepRecord, StepRecord.stored, h.index.orNull.toValue, h.displayName.orNull.toValue,
    h.status.orNull.toValue, h.exitCode.toValue, h.durationMs.orNull.toValue,
    h.output.orNull.toValue]

/-- The record of the row of a job is that job, with the steps that the tables have for it. -/
theorem jobRecord_row {t : Tables} {j : JobRecord} {position : Int} (h : j.Storable) :
    jobRecord t true (j.stored runId position) =
      { j with steps := (t.stepsOf (.text runId) j.jobId.cell).map stepRecord } := by
  simp [jobRecord, JobRecord.stored, h.jobId.orNull.toValue, h.status.orNull.toValue,
    h.templateName.toValue, h.variant.toValue, readTime_timeCell h.startedAt,
    readTime_timeCell h.finishedAt]

end Store

end Conveyor
