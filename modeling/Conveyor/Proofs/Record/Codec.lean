import Conveyor.Proofs.Record.Json
import Conveyor.Proofs.Store.History
import Conveyor.Record.Printed

/-!
# Records, written and read

What is written of a step, a job or a run is read back as it was, and no two of them are written
alike. Their JSON texts differ too, unless surrogates in a text make up a character.

- `StepRecord.Typed`, `JobRecord.Typed`, `RunRecord.Typed`: records whose fields hold what they
  are declared to hold, any texts and integers of any size among them;
  `RunRecord.typed_ofResult`: records of results are such.
- `StepRecord.ofValue_toValue`, `JobRecord.ofValue_toValue`, `RunRecord.ofValue_toValue`: **what
  is written is read back**.
- `Codec`: writing and reading fit together; `Codec.of_reads` gets it from reading back what is
  written.
- `codec_records`: **steps, jobs and runs are read back, and those that differ are written
  differently**.
- `paired_runs`: two runs with the same JSON text.
-/

namespace Conveyor

/-! ## Declared fields -/

namespace Value

variable {Kind : Text → Prop} {v : Value}

theorem IsText.plain (h : v.IsText) (hkind : ∀ s, v = .text s → Kind s) : v.Plain Kind := by
  obtain ⟨s, rfl⟩ := h
  exact .text (hkind s rfl)

theorem IsTextOrNull.plain (h : v.IsTextOrNull) (hkind : ∀ s, v = .text s → Kind s) :
    v.Plain Kind := by
  rcases h with rfl | h
  · exact .null
  · exact h.plain hkind

theorem IsInteger.plain (h : v.IsInteger) : v.Plain Kind := by
  obtain ⟨i, rfl⟩ := h
  exact .int i

theorem IsIntegerOrNull.plain (h : v.IsIntegerOrNull) : v.Plain Kind := by
  rcases h with rfl | h
  · exact .null
  · exact h.plain

end Value

/-- A step whose fields hold what they are declared to hold. -/
structure StepRecord.Typed (s : StepRecord) : Prop where
  index : s.index.IsInteger
  displayName : s.displayName.IsText
  status : s.status.IsText
  exitCode : s.exitCode.IsIntegerOrNull
  durationMs : s.durationMs.IsInteger
  output : s.output.IsText

/-- A job whose fields hold what they are declared to hold. -/
structure JobRecord.Typed (j : JobRecord) : Prop where
  jobId : j.jobId.IsText
  status : j.status.IsText
  steps : ∀ s ∈ j.steps, s.Typed
  templateName : j.templateName.IsTextOrNull
  variant : j.variant.IsTextOrNull
  startedAt : ∀ t ∈ j.startedAt, t.Valid
  finishedAt : ∀ t ∈ j.finishedAt, t.Valid

/-- A run whose fields hold what they are declared to hold. -/
structure RunRecord.Typed (r : RunRecord) : Prop where
  runId : r.runId.IsText
  status : r.status.IsText
  jobs : ∀ j ∈ r.jobs, j.Typed
  branch : r.branch.IsTextOrNull
  startedAt : ∀ t ∈ r.startedAt, t.Valid
  finishedAt : ∀ t ∈ r.finishedAt, t.Valid

theorem textValue_isTextOrNull (s : Option Text) : (textValue s).IsTextOrNull := by
  cases s with
  | none => exact .inl rfl
  | some s => exact .inr ⟨s, rfl⟩

theorem StepRecord.typed_ofResult (r : StepResult) : (StepRecord.ofResult r).Typed where
  index := ⟨_, rfl⟩
  displayName := ⟨_, rfl⟩
  status := ⟨_, rfl⟩
  exitCode := by
    unfold ofResult
    cases r.exitCode with
    | none => exact .inl rfl
    | some code => exact .inr ⟨code, rfl⟩
  durationMs := ⟨_, rfl⟩
  output := ⟨_, rfl⟩

/-- The times of a result exist. -/
def JobResult.Timed (r : JobResult) : Prop := (∀ t ∈ r.startedAt, t.Valid) ∧ r.finishedAt.Valid

theorem JobRecord.typed_ofResult {r : JobResult} (h : r.Timed) :
    (JobRecord.ofResult r).Typed where
  jobId := ⟨_, rfl⟩
  status := ⟨_, rfl⟩
  steps s hs := by
    obtain ⟨step, -, rfl⟩ := List.mem_map.1 hs
    exact StepRecord.typed_ofResult step
  templateName := .inr ⟨_, rfl⟩
  variant := textValue_isTextOrNull r.variant
  startedAt := h.1
  finishedAt := by
    rintro t ⟨⟩
    exact h.2

/-- The times of a result and of its jobs exist. -/
def RunResult.Timed (r : RunResult) : Prop :=
  (∀ j ∈ r.jobs, j.Timed) ∧ r.startedAt.Valid ∧ r.finishedAt.Valid

/-- The records of results hold what they are declared to hold. -/
theorem RunRecord.typed_ofResult {r : RunResult} (h : r.Timed) :
    (RunRecord.ofResult r).Typed where
  runId := ⟨_, rfl⟩
  status := ⟨_, rfl⟩
  jobs j hj := by
    obtain ⟨job, hjob, rfl⟩ := List.mem_map.1 hj
    exact JobRecord.typed_ofResult (h.1 job hjob)
  branch := .inr ⟨_, rfl⟩
  startedAt := by
    rintro t ⟨⟩
    exact h.2.1
  finishedAt := by
    rintro t ⟨⟩
    exact h.2.2

/-! ## Reading back -/

/-- The written form of a point in time is not empty. -/
theorem Stamp.Valid.isTruthy_text {t : Stamp} (h : t.Valid) :
    (Value.text (.ofString t.text)).isTruthy = true := by
  refine bne_iff_ne.2 fun hempty => ?_
  have hchars := congrArg List.length h.toList_text
  simp [Text.ofString_inj.1 hempty] at hchars

/-- A time is read back. -/
theorem timeOf_timeValue {t : Option Stamp} (h : ∀ s ∈ t, s.Valid) :
    timeOf (timeValue t) = .ok t := by
  cases t with
  | none => rfl
  | some s =>
    have hs := h s rfl
    simp only [timeOf, timeValue, hs.isTruthy_text, if_true, hs.read_text]

/-- A list is read back if its elements are. -/
theorem mapM_map_eq_ok {α : Type} {f : α → Value} {g : Value → RecordReading α} {as : List α}
    (h : ∀ a ∈ as, g (f a) = .ok a) : (as.map f).mapM g = .ok as := by
  induction as with
  | nil => rfl
  | cons a as ih =>
    have hrest := ih fun b hb => h b (List.mem_cons_of_mem a hb)
    rw [List.map_cons, List.mapM_cons, h a List.mem_cons_self, hrest]
    rfl

/-- **A step is read back.** -/
theorem StepRecord.ofValue_toValue (s : StepRecord) : ofValue s.toValue = .ok s := rfl

/-- **A job is read back.** -/
theorem JobRecord.ofValue_toValue {j : JobRecord} (hstart : ∀ t ∈ j.startedAt, t.Valid)
    (hfinish : ∀ t ∈ j.finishedAt, t.Valid) : ofValue j.toValue = .ok j := by
  have hsteps : (j.steps.map StepRecord.toValue).mapM StepRecord.ofValue = .ok j.steps :=
    mapM_map_eq_ok fun s _ => s.ofValue_toValue
  show (do
    let steps ← (j.steps.map StepRecord.toValue).mapM StepRecord.ofValue
    let startedAt ← timeOf (timeValue j.startedAt)
    let finishedAt ← timeOf (timeValue j.finishedAt)
    .ok { j with steps := steps, startedAt := startedAt, finishedAt := finishedAt }) =
    Except.ok j
  rw [hsteps, timeOf_timeValue hstart, timeOf_timeValue hfinish]
  rfl

/-- **A run is read back.** -/
theorem RunRecord.ofValue_toValue {r : RunRecord} (hjobs : ∀ j ∈ r.jobs, j.Typed)
    (hstart : ∀ t ∈ r.startedAt, t.Valid) (hfinish : ∀ t ∈ r.finishedAt, t.Valid) :
    ofValue r.toValue = .ok r := by
  have hread : (r.jobs.map JobRecord.toValue).mapM JobRecord.ofValue = .ok r.jobs :=
    mapM_map_eq_ok fun j hj => JobRecord.ofValue_toValue (hjobs j hj).startedAt
      (hjobs j hj).finishedAt
  show (do
    let jobs ← (r.jobs.map JobRecord.toValue).mapM JobRecord.ofValue
    let startedAt ← timeOf (timeValue r.startedAt)
    let finishedAt ← timeOf (timeValue r.finishedAt)
    .ok { r with jobs := jobs, startedAt := startedAt, finishedAt := finishedAt }) = Except.ok r
  rw [hread, timeOf_timeValue hstart, timeOf_timeValue hfinish]
  rfl

/-! ## Writing -/

section

variable {Kind : Text → Prop}

/-- A mapping of plain values is plain. -/
theorem plain_mapping {fields : List (Text × Value)}
    (h : ∀ f ∈ fields, Kind f.1 ∧ f.2.Plain Kind) : (mapping fields).Plain Kind := by
  refine .map (fun e he => ?_) fun e he => ?_
  · obtain ⟨f, hf, rfl⟩ := List.mem_map.1 he
    exact ⟨f.1, rfl, (h f hf).1⟩
  · obtain ⟨f, hf, rfl⟩ := List.mem_map.1 he
    exact (h f hf).2

theorem plain_timeValue (hstring : ∀ s : String, Kind s) (t : Option Stamp) :
    (timeValue t).Plain Kind := by
  cases t with
  | none => exact .null
  | some t => exact .text (hstring t.text)

/-- A list of plain values is plain. -/
theorem plain_list {α : Type} {f : α → Value} {as : List α} (h : ∀ a ∈ as, (f a).Plain Kind) :
    (Value.list (as.map f)).Plain Kind := by
  refine .list fun v hv => ?_
  obtain ⟨a, ha, rfl⟩ := List.mem_map.1 hv
  exact h a ha

theorem StepRecord.Typed.plain (hstring : ∀ s : String, Kind s) {s : StepRecord} (h : s.Typed)
    (hkind : ∀ t ∈ s.texts, Kind t) : s.toValue.Plain Kind := by
  have hfield {v : Value} (hv : v ∈ [s.displayName, s.status, s.output]) (t : Text)
      (ht : v = .text t) : Kind t :=
    hkind t (Value.mem_textsAmong.2 (ht ▸ hv))
  refine plain_mapping ?_
  simp only [List.forall_mem_cons]
  exact ⟨⟨hstring _, h.index.plain⟩, ⟨hstring _, h.displayName.plain (hfield (by simp))⟩,
    ⟨hstring _, h.status.plain (hfield (by simp))⟩, ⟨hstring _, h.exitCode.plain⟩,
    ⟨hstring _, h.durationMs.plain⟩, ⟨hstring _, h.output.plain (hfield (by simp))⟩,
    ⟨hstring _, .bool _⟩, nofun⟩

theorem JobRecord.Typed.plain (hstring : ∀ s : String, Kind s) {j : JobRecord} (h : j.Typed)
    (hkind : ∀ t ∈ j.texts, Kind t) : j.toValue.Plain Kind := by
  obtain ⟨hown, hsteps⟩ := List.forall_mem_append.1 hkind
  have hfield {v : Value} (hv : v ∈ [j.jobId, j.status, j.templateName, j.variant]) (t : Text)
      (ht : v = .text t) : Kind t :=
    hown t (Value.mem_textsAmong.2 (ht ▸ hv))
  have hlist : (Value.list (j.steps.map StepRecord.toValue)).Plain Kind :=
    plain_list fun s hs => (h.steps s hs).plain hstring fun t ht =>
      hsteps t (List.mem_flatMap.2 ⟨s, hs, ht⟩)
  refine plain_mapping ?_
  simp only [List.forall_mem_cons]
  exact ⟨⟨hstring _, h.jobId.plain (hfield (by simp))⟩,
    ⟨hstring _, h.status.plain (hfield (by simp))⟩,
    ⟨hstring _, h.templateName.plain (hfield (by simp))⟩,
    ⟨hstring _, h.variant.plain (hfield (by simp))⟩, ⟨hstring _, plain_timeValue hstring _⟩,
    ⟨hstring _, plain_timeValue hstring _⟩, ⟨hstring _, hlist⟩, nofun⟩

theorem RunRecord.Typed.plain (hstring : ∀ s : String, Kind s) {r : RunRecord} (h : r.Typed)
    (hkind : ∀ t ∈ r.texts, Kind t) : r.toValue.Plain Kind := by
  obtain ⟨hown, hjobs⟩ := List.forall_mem_append.1 hkind
  have hfield {v : Value} (hv : v ∈ [r.runId, r.status, r.branch]) (t : Text)
      (ht : v = .text t) : Kind t :=
    hown t (Value.mem_textsAmong.2 (ht ▸ hv))
  have hlist : (Value.list (r.jobs.map JobRecord.toValue)).Plain Kind :=
    plain_list fun j hj => (h.jobs j hj).plain hstring fun t ht =>
      hjobs t (List.mem_flatMap.2 ⟨j, hj, ht⟩)
  refine plain_mapping ?_
  simp only [headFields, List.cons_append, List.nil_append, List.forall_mem_cons]
  exact ⟨⟨hstring _, h.runId.plain (hfield (by simp))⟩,
    ⟨hstring _, h.status.plain (hfield (by simp))⟩,
    ⟨hstring _, h.branch.plain (hfield (by simp))⟩, ⟨hstring _, plain_timeValue hstring _⟩,
    ⟨hstring _, plain_timeValue hstring _⟩, ⟨hstring _, hlist⟩, nofun⟩

end

/-! ## Both together -/

/-- Writing and reading fit together. -/
structure Codec {α : Type} (Typed : α → Prop) (texts : α → List Text) (toValue : α → Value)
    (ofValue : Value → RecordReading α) : Prop where
  /-- What is written is read back. -/
  reads : ∀ r, Typed r → ofValue (toValue r) = .ok r
  /-- What is read from something written is written as that again. -/
  rewrites : ∀ d, (∃ r, Typed r ∧ toValue r = d) → (ofValue d).map toValue = .ok d
  /-- What differs is written differently. -/
  tells : ∀ r s, Typed r → Typed s → toValue r = toValue s → r = s
  /-- What is written has a JSON text if its integers can be written out. -/
  prints : ∀ r, Typed r → (toValue r).Writable → ∃ text, (toValue r).json = .ok text
  /-- What differs has different JSON texts unless surrogates are paired. -/
  printsApart : ∀ r s text, Typed r → Typed s → (∀ t ∈ texts r, t.Unpaired) →
    (∀ t ∈ texts s, t.Unpaired) → (toValue r).json = .ok text → (toValue s).json = .ok text →
    r = s

/-- Writing and reading fit together if what is written is read back and is plain. -/
theorem Codec.of_reads {α : Type} {Typed : α → Prop} {texts : α → List Text}
    {toValue : α → Value}
    {ofValue : Value → RecordReading α} (hreads : ∀ r, Typed r → ofValue (toValue r) = .ok r)
    (hplain : ∀ (Kind : Text → Prop), (∀ s : String, Kind s) → ∀ r, Typed r →
      (∀ t ∈ texts r, Kind t) → (toValue r).Plain Kind) :
    Codec Typed texts toValue ofValue where
  reads := hreads
  rewrites := by
    rintro d ⟨r, hr, rfl⟩
    rw [hreads r hr]
    rfl
  tells r s hr hs h := by
    have hread := hreads r hr
    rw [h, hreads s hs] at hread
    exact (Except.ok.inj hread).symm
  prints r hr hwritable :=
    (hplain (fun _ => True) (fun _ => trivial) r hr fun _ _ => trivial).exists_jsonAt hwritable 0
  printsApart r s text hr hs hrtexts hstexts htext hother := by
    have hsame : toValue r = toValue s :=
      Value.json_inj (hplain _ Text.unpaired_ofString r hr hrtexts)
        (hplain _ Text.unpaired_ofString s hs hstexts) htext hother
    have hread := hreads r hr
    rw [hsame, hreads s hs] at hread
    exact (Except.ok.inj hread).symm

/-- A run is printed as its JSON text and a line break. -/
theorem RunRecord.printedJson_eq_ok_iff {r : RunRecord} {text : Text} :
    r.printedJson = .ok text ↔ ∃ line, r.toValue.json = .ok line ∧ line ++ "\n" = text := by
  unfold printedJson
  cases r.toValue.json <;> simp [Except.map]

/-- A run whose integers can be written out is printed. -/
theorem RunRecord.Typed.exists_printedJson {r : RunRecord} (h : r.Typed)
    (hwritable : r.toValue.Writable) : ∃ text, r.printedJson = .ok text := by
  have hplain : r.toValue.Plain fun _ => True := h.plain (fun _ => trivial) fun _ _ => trivial
  obtain ⟨line, hline⟩ := hplain.exists_jsonAt hwritable 0
  exact ⟨_, printedJson_eq_ok_iff.2 ⟨line, hline, rfl⟩⟩

/-- **Records are read back, and those that differ are written differently.** For steps, jobs and
runs with any parts whose fields hold what they are declared to hold: reading gives the record
that was written, writing gives what was read, and different records are written as different
mappings. A record is printed if its integers can be written out, and what is printed tells the
record if no two surrogates of a text make up a character. -/
theorem codec_records :
    Codec StepRecord.Typed StepRecord.texts StepRecord.toValue StepRecord.ofValue ∧
      Codec JobRecord.Typed JobRecord.texts JobRecord.toValue JobRecord.ofValue ∧
      Codec RunRecord.Typed RunRecord.texts RunRecord.toValue RunRecord.ofValue ∧
      (∀ r : RunRecord, r.Typed → r.toValue.Writable → ∃ text, r.printedJson = .ok text) ∧
      ∀ (r s : RunRecord) (text : Text), r.Typed → s.Typed → (∀ t ∈ r.texts, t.Unpaired) →
        (∀ t ∈ s.texts, t.Unpaired) → r.printedJson = .ok text → s.printedJson = .ok text →
        r = s := by
  have hruns : Codec RunRecord.Typed RunRecord.texts RunRecord.toValue RunRecord.ofValue :=
    .of_reads (fun r hr => RunRecord.ofValue_toValue hr.jobs hr.startedAt hr.finishedAt)
      fun _ hstring r hr => hr.plain hstring
  refine ⟨?_, ?_, hruns, fun r hr => hr.exists_printedJson,
    fun r s text hr hs hrtexts hstexts htext hother => ?_⟩
  · exact .of_reads (fun s _ => s.ofValue_toValue) fun _ hstring s hs => hs.plain hstring
  · exact .of_reads (fun j hj => JobRecord.ofValue_toValue hj.startedAt hj.finishedAt)
      fun _ hstring j hj => hj.plain hstring
  · obtain ⟨line, hline, rfl⟩ := RunRecord.printedJson_eq_ok_iff.1 htext
    obtain ⟨line', hline', hsame⟩ := RunRecord.printedJson_eq_ok_iff.1 hother
    obtain rfl : line' = line :=
      Text.toList_inj.1 (List.append_cancel_right (congrArg Text.toList hsame))
    exact hruns.printsApart r s line' hr hs hrtexts hstexts hline hline'

/-- A run of one job with one step of some name, which exited with a code or was never
attempted. -/
def oneStepRun (name : Text) (exitCode : Option Int) : RunResult :=
  { runId := "r"
    status := .failed
    jobs := [{
      jobId := "build"
      status := .failed
      steps := [⟨0, name, .failed, exitCode, 1500, "", false⟩]
      templateName := "build"
      variant := none
      startedAt := none
      finishedAt := Store.springNoon }]
    branch := "main"
    startedAt := Store.springNoon
    finishedAt := Store.springNoon }

theorem timed_oneStepRun (name : Text) (exitCode : Option Int) :
    (oneStepRun name exitCode).Timed := by
  refine ⟨fun j hj => ?_, Store.valid_springNoon, Store.valid_springNoon⟩
  obtain rfl := List.mem_singleton.1 hj
  exact ⟨nofun, Store.valid_springNoon⟩

/-- A code of zero and no code are not printed alike. -/
theorem codec_records_exitCode :
    ∃ text other, (RunRecord.ofResult (oneStepRun "make \"all\"" (some 0))).printedJson =
      .ok text ∧
      (RunRecord.ofResult (oneStepRun "make \"all\"" none)).printedJson = .ok other ∧
      text ≠ other := by
  have htyped (exitCode : Option Int) := RunRecord.typed_ofResult
    (timed_oneStepRun "make \"all\"" exitCode)
  have htexts (exitCode : Option Int) : ∀ t ∈ (RunRecord.ofResult
      (oneStepRun "make \"all\"" exitCode)).texts, t.Unpaired := by
    intro t ht
    have hmem : t ∈ ["r", "failed", "main", "build", "failed", "build", "make \"all\"",
        "failed", ""].map Text.ofString := ht
    obtain ⟨s, -, rfl⟩ := List.mem_map.1 hmem
    exact Text.unpaired_ofString s
  obtain ⟨text, htext⟩ := codec_records.2.2.2.1 _ (htyped (some 0)) (by decide +kernel)
  obtain ⟨other, hother⟩ := codec_records.2.2.2.1 _ (htyped none) (by decide +kernel)
  refine ⟨text, other, htext, hother, ?_⟩
  rintro rfl
  have hsame := codec_records.2.2.2.2 _ _ text (htyped (some 0)) (htyped none)
    (htexts (some 0)) (htexts none) htext hother
  have hcodes := congrArg (fun r : RunRecord => r.jobs.map fun j =>
    j.steps.map StepRecord.exitCode) hsame
  cases hcodes

/-- Two surrogates that stand by themselves: two escapes put them into the text. -/
def twoSurrogates : Text := .ofList [.lone ⟨0x3D, by decide⟩, .lone ⟨0x600, by decide⟩]

/-- A step is named by two surrogates in one run and by the character that they make up in the
other. The runs differ, yet they are printed alike. -/
theorem paired_runs :
    (RunRecord.ofResult (oneStepRun twoSurrogates none)).Typed ∧
      (RunRecord.ofResult (oneStepRun "😀" none)).Typed ∧
      RunRecord.ofResult (oneStepRun twoSurrogates none) ≠
        RunRecord.ofResult (oneStepRun "😀" none) ∧
      ∃ text, (RunRecord.ofResult (oneStepRun twoSurrogates none)).printedJson = .ok text ∧
        (RunRecord.ofResult (oneStepRun "😀" none)).printedJson = .ok text := by
  refine ⟨RunRecord.typed_ofResult (timed_oneStepRun ..),
    RunRecord.typed_ofResult (timed_oneStepRun ..), fun hsame => ?_, ?_⟩
  · have hnames := congrArg (fun r : RunRecord => r.jobs.map fun j =>
      j.steps.map StepRecord.displayName) hsame
    cases hnames
  · have hline : (RunRecord.ofResult (oneStepRun twoSurrogates none)).toValue.json =
        (RunRecord.ofResult (oneStepRun "😀" none)).toValue.json := by decide +kernel
    obtain ⟨text, htext⟩ :=
      (RunRecord.typed_ofResult (timed_oneStepRun "😀" none)).exists_printedJson
        (by decide +kernel)
    refine ⟨text, ?_, htext⟩
    rw [← htext, RunRecord.printedJson, RunRecord.printedJson, hline]

end Conveyor
