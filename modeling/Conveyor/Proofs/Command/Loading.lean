import Conveyor.Command.Run
import Conveyor.Proofs.Document.Faults
import Conveyor.Proofs.Yaml.Supply

/-!
# Documents that cannot be loaded

A file that is missing, is no YAML or does not follow the schema is a configuration error. Other
faults are not told apart from failures of the program: the file may be no text, the reader of
YAML may find something else wrong with it, and the document may hold an integer that is too long
to be written out, a time limit out of range, or a policy that is too deep to be shown. Nothing
is assumed of the reader but that it reads text.

- `Yaml.Reader.ReadsText`: a reader finds out that a file is no text; `Yaml.readsText_decode`.
- `LoadFault.isConfiguration`: the faults that count as configuration errors.
- `LoadFault.Escapes`: the other ones, each with its reason in the file or in the value that was
  read.
- `PipelineDocument.escapes_of_load`: **these are all**.
- `Workplace.run_of_loadFault`: what a command does with a document that cannot be loaded.
- `Workplace.unusable_documents`: all of this for a command line with a branch.
-/

namespace Conveyor

open Text

/-! ## Loading -/

/-- A reader that reads text finds out that a file is none. It may find something else wrong
before it gets there, but not within the first portion of the file. -/
def Yaml.Reader.ReadsText (read : Yaml.Reader) : Prop :=
  ∀ bytes, bytes.length ≤ Supply.leastPortion → Utf8.decodeStrict? bytes = none →
    read bytes = .error .notText

theorem Yaml.readsText_decode : Reader.ReadsText decode :=
  fun _ hshort h => decode_of_illFormed hshort h

namespace LoadFault

/-- Is something wrong with what the user configured? -/
def isConfiguration (fault : LoadFault) : Bool := (CommandFault.load fault).isConfiguration

/-- The faults that are no configuration errors, with their reasons. -/
inductive Escapes (read : Yaml.Reader) (bytes : List UInt8) : LoadFault → Prop
  | notText (hread : read bytes = .error .notText) : Escapes read bytes .notText
  /-- The reader found something wrong that it does not call a breach of the language. -/
  | value {fault : Yaml.Fault} (hread : read bytes = .error fault)
      (hmalformed : fault ≠ .malformed) (htext : fault ≠ .notText) :
      Escapes read bytes (.value fault)
  | longInteger {v : Value} {ks : Knots} (hread : read bytes = .ok (v, ks))
      (hlong : ¬ (ks.Writable ∧ v.Writable)) : Escapes read bytes (.document .unwritableInteger)
  | longTimeout {v : Value} {ks : Knots} (hread : read bytes = .ok (v, ks))
      (hlong : ¬ Schema.LimitsInRange ks v) : Escapes read bytes (.document .timeoutOverflow)
  | deepPolicy {v : Value} {ks : Knots} (hread : read bytes = .ok (v, ks))
      (hdeep : ¬ Schema.PolicyShallow ks v) : Escapes read bytes (.document .tooDeep)

theorem Escapes.not_isConfiguration {read : Yaml.Reader} {bytes : List UInt8} {fault : LoadFault}
    (h : fault.Escapes read bytes) : fault.isConfiguration = false := by
  cases h <;> rfl

end LoadFault

namespace PipelineDocument

variable {read : Yaml.Reader} {path : Text} {bytes : List UInt8} {fault : LoadFault}

/-- What is wrong with the document that was read is a configuration error, or has its reason. -/
theorem escapes_of_document {v : Value} {ks : Knots} {f : DocumentFault}
    (hread : read bytes = .ok (v, ks)) (h : ofKnotted ks v = .error f) :
    (LoadFault.document f).isConfiguration = true ∨
    (LoadFault.document f).Escapes read bytes := by
  have hexcused := justified_ofKnotted ks v f h
  cases f with
  | unwritableInteger => exact .inr (.longInteger hread hexcused)
  | timeoutOverflow => exact .inr (.longTimeout hread hexcused)
  | tooDeep => exact .inr (.deepPolicy hread hexcused)
  | _ => exact .inl rfl

/-- **The faults of loading that are no configuration errors are those that escape.** -/
theorem escapes_of_load (h : load path (some bytes) read = .error fault) :
    fault.isConfiguration = true ∨ fault.Escapes read bytes := by
  unfold load at h
  dsimp only at h
  split at h
  · cases h
    exact .inl rfl
  · rename_i hread
    cases h
    exact .inr (.notText hread)
  · -- Any other fault of the reader is passed on as it is.
    rename_i f hmalformed htext hread
    cases h
    exact .inr (.value hread (fun hf => hmalformed (hf ▸ rfl)) fun hf => htext (hf ▸ rfl))
  · rename_i v ks hread
    cases hof : ofKnotted ks v with
    | ok d =>
      rw [hof] at h
      cases h
    | error f =>
      rw [hof] at h
      cases h
      exact escapes_of_document hread hof

/-- A document that was loaded is that of the value that was read. -/
theorem load_eq_ok {content : Option (List UInt8)} {d : PipelineDocument}
    (h : load path content read = .ok d) :
    ∃ bytes v ks, content = some bytes ∧ read bytes = .ok (v, ks) ∧ ofKnotted ks v = .ok d := by
  unfold load at h
  split at h
  · cases h
  · rename_i bytes
    split at h
    · cases h
    · cases h
    · cases h
    · rename_i v ks hread
      exact ⟨bytes, v, ks, rfl, hread, eq_ok_of_mapError h⟩

/-- A document that was loaded follows the schema. -/
theorem schema_of_load {content : Option (List UInt8)} {d : PipelineDocument}
    (h : load path content read = .ok d) :
    ∃ bytes v ks, content = some bytes ∧ read bytes = .ok (v, ks) ∧ Schema.Document ks v := by
  obtain ⟨bytes, v, ks, hcontent, hread, hd⟩ := load_eq_ok h
  exact ⟨bytes, v, ks, hcontent, hread, (ofKnotted_eq_ok hd).1⟩

/-- A short file that is not UTF-8 is not loaded, for that reason. -/
theorem load_of_illFormed (htext : read.ReadsText) (hshort : bytes.length ≤
    Yaml.Supply.leastPortion)
    (h : Utf8.decodeStrict? bytes = none) : load path (some bytes) read = .error .notText := by
  unfold load
  dsimp only
  rw [htext bytes hshort h]

end PipelineDocument

/-! ## The command -/

namespace Workplace

variable {read : Yaml.Reader} {w : Workplace} {c : Circumstances} {argv : List Text}
    {request : RunRequest}
  {branch path : Text} {content : Option (List UInt8)}

/-- What is in the file at a path: nothing if there is no such file. -/
def Holds (w : Workplace) (path : Text) (content : Option (List UInt8)) : Prop :=
  w.disk.readFile (Path.read path) =
    match content with
    | some bytes => .ok bytes
    | none => .error .missing

theorem loadDocument_of_holds (h : w.Holds path content) :
    w.loadDocument path read =
      (PipelineDocument.load (Path.read path).text content read).mapError .load := by
  unfold Holds at h
  unfold loadDocument
  dsimp only
  rw [h]
  cases content <;> rfl

/-- A command whose document cannot be loaded runs nothing and prints nothing. -/
theorem run_of_loadFault {fault : LoadFault} (hrequest : RunRequest.read argv = .ok request)
    (hbranch : nonempty? (Sources.mk request.options c.environment).branch = some branch)
    (hcontent : w.Holds request.document content)
    (hload : PipelineDocument.load (Path.read request.document).text content read =
        .error fault) :
    ∃ report, w.run c argv read = (.ok report, w) ∧
      report.exitCode = (if fault.isConfiguration then exitMisconfigured else exitFailed) ∧
      report.stdout = "" ∧ report.notes = [] := by
  have hdocument : w.loadDocument request.document read = .error (.load fault) := by
    rw [loadDocument_of_holds hcontent, hload]
    rfl
  have hrun : w.runPipeline c request read = (.early (.load fault) [], w) := by
    unfold runPipeline
    dsimp only
    rw [hbranch, hdocument]
  refine ⟨report request.options (.early (.load fault) []), ?_, rfl, rfl, rfl⟩
  unfold run
  rw [hrequest]
  dsimp only
  rw [hrun]

/-- **What becomes of a document that cannot be loaded**, for every content of its file, every
reader of YAML that reads text, and every command line with a branch. A missing file, a file that
the reader finds to be no YAML and a document that does not follow the schema are configuration
errors. What escapes ends the command like a failed run; of short files, this holds for all that
are not UTF-8. -/
theorem unusable_documents (htext : read.ReadsText) (hrequest : RunRequest.read argv =
    .ok request)
    (hbranch : nonempty? (Sources.mk request.options c.environment).branch = some branch)
    (hcontent : w.Holds request.document content) :
    ((∃ d bytes v ks, PipelineDocument.load (Path.read request.document).text content read =
        .ok d ∧
        content = some bytes ∧ read bytes = .ok (v, ks) ∧ Schema.Document ks v) ∨
      ∃ fault report,
        PipelineDocument.load (Path.read request.document).text content read = .error fault ∧
        w.run c argv read = (.ok report, w) ∧ report.stdout = "" ∧ report.notes = [] ∧
        (fault.isConfiguration = true ∧ report.exitCode = 2 ∨
          (∃ bytes, content = some bytes ∧ fault.Escapes read bytes) ∧ report.exitCode = 1)) ∧
      ∀ bytes, content = some bytes → bytes.length ≤ Yaml.Supply.leastPortion →
        Utf8.decodeStrict? bytes = none →
        PipelineDocument.load (Path.read request.document).text content read =
        .error .notText := by
  constructor
  · cases hload : PipelineDocument.load (Path.read request.document).text content read with
    | ok d =>
      obtain ⟨bytes, v, ks, hbytes, hread, hschema⟩ := PipelineDocument.schema_of_load hload
      exact .inl ⟨d, bytes, v, ks, rfl, hbytes, hread, hschema⟩
    | error fault =>
      obtain ⟨report, hrun, hexit, hstdout, hnotes⟩ :=
        run_of_loadFault hrequest hbranch hcontent hload
      refine .inr ⟨fault, report, rfl, hrun, hstdout, hnotes, ?_⟩
      cases content with
      | none =>
        cases hload
        exact .inl ⟨rfl, hexit⟩
      | some bytes =>
        rcases PipelineDocument.escapes_of_load hload with hconfiguration | hescapes
        · rw [hconfiguration] at hexit
          exact .inl ⟨hconfiguration, hexit⟩
        · rw [hescapes.not_isConfiguration] at hexit
          exact .inr ⟨⟨bytes, rfl, hescapes⟩, hexit⟩
  · rintro bytes rfl hshort hillFormed
    exact PipelineDocument.load_of_illFormed htext hshort hillFormed

/-- A workplace with a single file. -/
def withFile (bytes : List UInt8) : Workplace :=
  ⟨⟨"/", [], [("/pipeline.yml", .plain bytes)]⟩, 0, 0⟩

/-- A host that spawns nothing, at the beginning of time. -/
def bareCircumstances : Circumstances := ⟨[], ⟨fun _ _ => .error "no processes", true⟩, 0⟩

/-- A command line that names the document and a branch. -/
def mainRequest : RunRequest := ⟨"pipeline.yml", { RunOptions.none with branch := some "main" }⟩

/-- A file of one byte that is no text: the command ends like a failed run. -/
theorem unusable_documents_notText :
    ∃ report, (withFile [0xFF]).run bareCircumstances ["pipeline.yml", "--branch", "main"] =
      (.ok report, withFile [0xFF]) ∧ report.exitCode = 1 := by
  have hrequest : RunRequest.read ["pipeline.yml", "--branch", "main"] = .ok mainRequest := by
    decide +kernel
  have hbranch : nonempty? (Sources.mk mainRequest.options
      bareCircumstances.environment).branch =
      some "main" := by
    decide +kernel
  have hcontent : (withFile [0xFF]).Holds mainRequest.document (some [0xFF]) := by
    rfl
  obtain ⟨hload, hillFormed⟩ :=
    unusable_documents Yaml.readsText_decode hrequest hbranch hcontent
  have hnotText := hillFormed [0xFF] rfl (by decide +kernel) (by decide +kernel)
  rw [hnotText] at hload
  obtain ⟨d, _, _, _, hd, -⟩ | ⟨fault, report, hfault, hrun, -, -, hexit⟩ := hload
  · cases hd
  · cases hfault
    refine ⟨report, hrun, ?_⟩
    obtain ⟨hconfiguration, -⟩ | ⟨-, hexit⟩ := hexit
    · cases hconfiguration
    · exact hexit

/-- **A document that cannot be loaded is not always a configuration error.** -/
theorem fatal_document :
    ¬ ∀ (bytes : List UInt8) (fault : LoadFault),
        PipelineDocument.load "pipeline.yml" (some bytes) = .error fault →
          fault.isConfiguration = true := by
  intro h
  have hnotText : PipelineDocument.load "pipeline.yml" (some [0xFF]) = .error .notText :=
    PipelineDocument.load_of_illFormed Yaml.readsText_decode (by decide +kernel)
      (by decide +kernel)
  exact absurd (h [0xFF] .notText hnotText) (by decide +kernel)

end Workplace

end Conveyor
