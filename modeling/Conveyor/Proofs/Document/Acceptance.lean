import Conveyor.Proofs.Document.Reading

/-!
# The documents that are accepted

A decoded value stands for a document exactly if it follows the schema, and what the document has
is what the value holds.

- `StepSpec.Reads`, `JobTemplate.Reads`, `PipelineDocument.Reads`: what the parts of a document
  have from the value.
- `readTrigger_eq_ok`, `readStep_eq_ok`, `readJob_eq_ok`, `PipelineDocument.ofKnotted_eq_ok`:
  **what was read follows the schema**.
- `exists_readTrigger`, `exists_readStep`, `exists_readJob`, `PipelineDocument.exists_ofKnotted`:
  **what follows the schema is read**.
- `PipelineDocument.accepts_iff_schema`: both.
-/

namespace Conveyor

variable {ks : Knots} {v : Value} {es : List Value.Entry} {place : Text}

/-! ## The trigger -/

theorem PathPolicy.isSome_ofWord?_iff {s : Text} :
    (PathPolicy.ofWord? s).isSome ↔ s = "shallow" ∨ s = "recursive" := by
  unfold PathPolicy.ofWord?
  split <;> simp_all

/-- A policy that is known, or none at all. -/
theorem knownPolicy_iff {policy : Option Value} :
    (∃ p, (match policy.getD (.text "shallow") with
      | .text s => PathPolicy.ofWord? s
      | _ => none) = some p) ↔
      ∀ w ∈ policy, w.AsText fun s => s = "shallow" ∨ s = "recursive" := by
  rw [← Option.isSome_iff_exists]
  cases policy with
  | none => simp [PathPolicy.ofWord?]
  | some w =>
    simp only [Option.getD_some, Option.mem_some_iff, forall_eq']
    cases w with
    | text s => exact PathPolicy.isSome_ofWord?_iff
    | _ => simp [Value.AsText]

theorem readTrigger_eq_ok {rule : TriggerRule} (h : readTrigger ks v = .ok rule) :
    Schema.Trigger ks v := by
  obtain ⟨es, hes, h⟩ := bind_eq_ok h
  obtain ⟨branches, hbranches, h⟩ := bind_eq_ok h
  split at h
  · cases h
  · rename_i hsome
    dsimp only at h
    split at h
    -- An unknown policy is refused, whether it can be shown or not.
    · obtain ⟨_, -, h⟩ := bind_eq_ok h
      cases h
    · rename_i policy hpolicy
      obtain ⟨excluded, hexcluded, h⟩ := bind_eq_ok h
      refine asMapping_of_readMapping hes ⟨?_, ?_, ?_⟩ fun hnil => hnil.1
      · rcases readTexts_eq_ok_iff.1 hbranches with ⟨-, rfl⟩ | hlist
        · exact absurd rfl hsome
        · rw [hlist]
          refine ⟨?_, ?_⟩
          · simpa using hsome
          · intro x hx
            obtain ⟨s, -, rfl⟩ := List.mem_map.1 hx
            trivial
      · exact exists_readTexts_iff.1 ⟨excluded, hexcluded⟩
      · exact knownPolicy_iff.1 ⟨policy, hpolicy⟩

theorem exists_readTrigger (h : Schema.Trigger ks v) : ∃ rule, readTrigger ks v = .ok rule := by
  obtain ⟨es, hes, hbranches, hexcluded, hpolicy⟩ := Value.asMapping_iff.1 h
  obtain ⟨xs, hxs, hsome, htexts⟩ := Value.asList_iff.1 hbranches
  obtain ⟨branches, rfl⟩ := exists_texts htexts
  obtain ⟨policy, hpolicy⟩ := knownPolicy_iff.2 hpolicy
  refine exists_bind_ok (readMapping_eq_ok_iff.2 (.inr hes)) ?_
  refine exists_bind_ok (readTexts_eq_ok_iff.2 (.inr hxs)) ?_
  rw [List.isEmpty_map] at hsome
  simp only [hsome, Bool.false_eq_true, if_false]
  split
  · rename_i hunknown
    cases hpolicy.symm.trans hunknown
  · obtain ⟨excluded, hexcluded⟩ := exists_readTexts_iff.2 hexcluded
    exact exists_bind_ok hexcluded ⟨_, rfl⟩

/-! ## Steps -/

/-- The variables that a step sets, as the value holds them. -/
def StepSpec.Reads (ks : Knots) (v : Value) (s : StepSpec) : Prop :=
  s.overrides = (ks.follow (Value.getD (ks.follow v).entries "env")).bindings

theorem allBlank_eq_false_iff {s : Text} :
    Text.allBlank s = false ↔ Schema.Visible s := by
  rw [Text.allBlank, List.all_eq_false, Schema.Visible]
  simp only [Bool.not_eq_true]

theorem mem_names_bindings {name : Text} :
    name ∈ v.bindings.names ↔ name ∈ v.entries.map fun e => e.1.plainText := by
  rw [Value.bindings, Bindings.ofPairs, Bindings.update_eq, Bindings.names, Assoc.keys_putAll,
    List.mem_eraseDups, List.map_map]
  rfl

/-- The name of a step: a text, unless it is left out. -/
theorem displayName_eq_ok {w : Value} {script : Text} {fault : DocumentFault}
    {tail : Text → Reading StepSpec} {s : StepSpec}
    (h : (match w with
      | .null => Except.ok (defaultName script) >>= tail
      | .text t => if t = "" then Except.error fault >>= tail else Except.ok t >>= tail
      | _ => Except.error fault >>= tail) = .ok s) :
    (w.IsNull ∨ w.AsText (· ≠ "")) ∧ ∃ name, tail name = .ok s := by
  cases w with
  | null => exact ⟨.inl trivial, _, h⟩
  | text t =>
    dsimp only at h
    split at h
    · cases h
    · rename_i ht
      exact ⟨.inr ht, t, h⟩
  | _ => cases h

theorem exists_displayName {w : Value} {script : Text} {fault : DocumentFault}
    {tail : Text → Reading StepSpec} (hw : w.IsNull ∨ w.AsText (· ≠ ""))
    (htail : ∀ name, ∃ s, tail name = .ok s) :
    ∃ s, (match w with
      | .null => Except.ok (defaultName script) >>= tail
      | .text t => if t = "" then Except.error fault >>= tail else Except.ok t >>= tail
      | _ => Except.error fault >>= tail) = .ok s := by
  rcases hw with hnull | htext
  · rw [Value.isNull_iff.1 hnull]
    exact htail _
  · obtain ⟨t, rfl, ht⟩ := Value.asText_iff.1 htext
    dsimp only
    rw [if_neg ht]
    exact htail t

/-- No additive name is without an override if each is set by the step. -/
theorem noStray_iff {w : Value} {additive : List Text} (hw : w.items = additive.map .text) :
    (additive.filter fun n => !v.bindings.names.contains n).isEmpty = true ↔
      ∀ x ∈ w.items, x.AsText (· ∈ v.entries.map fun e => e.1.plainText) := by
  simp only [hw, List.forall_mem_map, Value.AsText, ← mem_names_bindings, List.isEmpty_iff,
    List.filter_eq_nil_iff, Bool.not_eq_true, Bool.not_eq_false', List.contains_iff_mem]

theorem readStep_eq_ok {s : StepSpec} (h : readStep ks place v = .ok s) :
    Schema.Step ks v ∧ s.Reads ks v := by
  obtain ⟨es, hes, h⟩ := bind_eq_ok h
  obtain ⟨script, hscript, h⟩ := bind_eq_ok h
  obtain ⟨hscript, -⟩ := requiredText_eq_ok_iff.1 hscript
  split at h
  · cases h
  · rename_i hblank
    obtain ⟨additive, hadditive, h⟩ := bind_eq_ok h
    obtain ⟨env, henv, h⟩ := bind_eq_ok h
    obtain ⟨hvariables, rfl⟩ := readVariables_eq_ok henv
    obtain ⟨hname, name, h⟩ := displayName_eq_ok h
    dsimp only at h
    split at h
    · rename_i hstray
      cases h
      refine ⟨asMapping_of_readMapping hes ⟨?_, hname, hvariables, ?_, ?_⟩ fun hnil =>
        hnil.1, ?_⟩
      · rw [hscript]
        exact allBlank_eq_false_iff.1 (by simpa using hblank)
      · exact exists_readTexts_iff.1 ⟨additive, hadditive⟩
      · exact (noStray_iff (items_of_readTexts hadditive)).1 hstray
      · rw [StepSpec.Reads, ← entries_of_readMapping hes]
    · cases h

theorem exists_readStep (hks : ks.Writable) (hv : v.Writable) (h : Schema.Step ks v) :
    ∃ s, readStep ks place v = .ok s := by
  obtain ⟨es, hes, hscript, hname, henv, hadditive, hstray⟩ := Value.asMapping_iff.1 h
  obtain ⟨script, hscript, hblank⟩ := Value.asText_iff.1 hscript
  -- The reader also asks that the script is not empty, which says nothing new.
  have hsome : script ≠ "" := by
    rintro rfl
    obtain ⟨c, hc, -⟩ := hblank
    cases hc
  refine exists_bind_ok (readMapping_eq_ok_iff.2 (.inr hes)) ?_
  refine exists_bind_ok (requiredText_eq_ok_iff.2 ⟨hscript, hsome⟩) ?_
  rw [if_neg (by rw [allBlank_eq_false_iff.2 hblank]; decide)]
  obtain ⟨additive, hadditive⟩ := exists_readTexts_iff.2 hadditive
  refine exists_bind_ok hadditive ?_
  refine exists_bind_ok (readVariables_of_variables hks (Value.writable_field hks hv hes _) henv)
    ?_
  refine exists_displayName hname fun name => ?_
  exact ⟨_, if_pos ((noStray_iff (items_of_readTexts hadditive)).2 hstray)⟩

theorem readSteps_eq_ok {i : Nat} {xs : List Value} {steps : List StepSpec}
    (h : readSteps ks place i xs = .ok steps) :
    (∀ x ∈ xs, Schema.Step ks x) ∧ List.Forall₂ (StepSpec.Reads ks) xs steps := by
  induction xs generalizing i steps with
  | nil =>
    cases h
    exact ⟨List.forall_mem_nil _, .nil⟩
  | cons x xs ih =>
    rw [readSteps] at h
    obtain ⟨step, hstep, h⟩ := bind_eq_ok h
    obtain ⟨rest, hrest, h⟩ := bind_eq_ok h
    cases h
    obtain ⟨hschema, hreads⟩ := readStep_eq_ok hstep
    obtain ⟨hschemas, hall⟩ := ih hrest
    exact ⟨List.forall_mem_cons.2 ⟨hschema, hschemas⟩, .cons hreads hall⟩

theorem exists_readSteps (hks : ks.Writable) {xs : List Value} (hxs : ∀ x ∈ xs, x.Writable)
    (h : ∀ x ∈ xs, Schema.Step ks x) (i : Nat) : ∃ steps, readSteps ks place i xs =
    .ok steps := by
  induction xs generalizing i with
  | nil => exact ⟨[], rfl⟩
  | cons x xs ih =>
    rw [List.forall_mem_cons] at hxs h
    obtain ⟨step, hstep⟩ := exists_readStep hks hxs.1 h.1
    obtain ⟨rest, hrest⟩ := ih hxs.2 h.2 (i + 1)
    exact exists_bind_ok hstep (exists_bind_ok hrest ⟨_, rfl⟩)

/-! ## Jobs -/

/-- What a job has from the value. -/
structure JobTemplate.Reads (ks : Knots) (v : Value) (t : JobTemplate) : Prop where
  name : Schema.nameOf ks v = some t.name
  jobVariables :
    t.jobVariables = (ks.follow (Value.getD (ks.follow v).entries "variables")).bindings
  /-- Of keys with the same text the last one counts, at the place of the first. -/
  variants :
    t.variants = Assoc.putAll []
      ((ks.follow (Value.getD (ks.follow v).entries "matrix")).entries.map fun e =>
        (e.1.plainText, (ks.follow e.2).bindings))
  steps :
    List.Forall₂ (StepSpec.Reads ks) (ks.follow (Value.getD (ks.follow v).entries "steps")).items
      t.steps

theorem readVariants_eq_ok {acc variants : List (Text × Bindings)}
    (h : readVariants ks place acc es = .ok variants) :
    (∀ e ∈ es, Schema.Variables ks e.2) ∧
      variants = Assoc.putAll acc
      (es.map fun e => (e.1.plainText, (ks.follow e.2).bindings)) := by
  induction es generalizing acc with
  | nil =>
    cases h
    exact ⟨List.forall_mem_nil _, rfl⟩
  | cons e es ih =>
    rw [readVariants] at h
    obtain ⟨name, hname, h⟩ := bind_eq_ok h
    obtain ⟨bindings, hbindings, h⟩ := bind_eq_ok h
    obtain ⟨hvariables, rfl⟩ := readVariables_eq_ok hbindings
    obtain ⟨hall, rfl⟩ := ih h
    rw [written_eq_ok hname, putVariant_eq]
    exact ⟨List.forall_mem_cons.2 ⟨hvariables, hall⟩, rfl⟩

theorem exists_readVariants (hks : ks.Writable) (hes : ∀ e ∈ es, e.1.Writable ∧ e.2.Writable)
    (h : ∀ e ∈ es, Schema.Variables ks e.2) (acc : List (Text × Bindings)) :
    ∃ variants, readVariants ks place acc es = .ok variants := by
  induction es generalizing acc with
  | nil => exact ⟨acc, rfl⟩
  | cons e es ih =>
    rw [List.forall_mem_cons] at hes h
    refine exists_bind_ok (written_of_writable hes.1.1) ?_
    exact exists_bind_ok (readVariables_of_variables hks hes.1.2 h.1) (ih hes.2 h.2 _)

theorem isTimeLimit_of_timeoutSeconds {w minutes : Value} {seconds : Binary64}
    (hminutes : checkTimeout place w = .ok minutes) (hseconds : timeoutSeconds minutes =
        .ok seconds) :
    w.IsTimeLimit := by
  cases w with
  | int i =>
    rw [checkTimeout] at hminutes
    split at hminutes
    · cases hminutes
    · rename_i hpos
      cases hminutes
      -- That it is positive was checked, that it is in range is seen only when it is converted.
      refine ⟨not_le.1 hpos, (Binary64.isSome_ofInt?_iff i).1 ?_⟩
      rw [timeoutSeconds] at hseconds
      split at hseconds
      · rename_i x hx
        rw [hx]
        rfl
      · cases hseconds
  | float x =>
    rw [checkTimeout] at hminutes
    split at hminutes
    · cases hminutes
    · rename_i hpos
      exact Bool.eq_false_iff.2 hpos
  | _ => cases hminutes

theorem checkTimeout_of_isTimeLimit {w : Value} (h : w.IsTimeLimit) :
    checkTimeout place w = .ok w := by
  cases w with
  | int i => exact if_neg (not_le.2 h.1)
  | float x =>
    rw [Value.IsTimeLimit] at h
    simp [checkTimeout, h]
  | _ => exact h.elim

theorem exists_timeoutSeconds {w : Value} (h : w.IsTimeLimit) :
    ∃ seconds, timeoutSeconds w = .ok seconds := by
  cases w with
  | int i =>
    obtain ⟨x, hx⟩ := Option.isSome_iff_exists.1 ((Binary64.isSome_ofInt?_iff i).2 h.2)
    exact ⟨_, by rw [timeoutSeconds, hx]⟩
  | float x => exact ⟨_, rfl⟩
  | _ => exact h.elim

/-- The time limit that counts is good if the one that is given is. -/
theorem isTimeLimit_getD_iff {limit : Option Value} :
    (limit.getD (.int defaultTimeoutMinutes)).IsTimeLimit ↔ ∀ w ∈ limit, w.IsTimeLimit := by
  cases limit with
  | none =>
    have hdefault : (Value.int defaultTimeoutMinutes).IsTimeLimit := by decide +kernel
    simpa using hdefault
  | some w => simp

/-- The container image of a job: a text, unless it is left out. -/
theorem containerImage_eq_ok {w : Value} {fault : DocumentFault}
    {tail : Option Text → Reading JobTemplate} {t : JobTemplate}
    (h : (match w with
      | .null => Except.ok none >>= tail
      | .text s => Except.ok (some s) >>= tail
      | _ => Except.error fault >>= tail) = .ok t) :
    (w.IsNull ∨ w.AsText fun _ => True) ∧ ∃ image, tail image = .ok t := by
  cases w with
  | null => exact ⟨.inl trivial, _, h⟩
  | text s => exact ⟨.inr trivial, _, h⟩
  | _ => cases h

theorem exists_containerImage {w : Value} {fault : DocumentFault}
    {tail : Option Text → Reading JobTemplate} (hw : w.IsNull ∨ w.AsText fun _ => True)
    (htail : ∀ image, ∃ t, tail image = .ok t) :
    ∃ t, (match w with
      | .null => Except.ok none >>= tail
      | .text s => Except.ok (some s) >>= tail
      | _ => Except.error fault >>= tail) = .ok t := by
  rcases hw with hnull | htext
  · rw [Value.isNull_iff.1 hnull]
    exact htail none
  · obtain ⟨s, rfl, -⟩ := Value.asText_iff.1 htext
    exact htail (some s)

theorem matrix_of_readMapping (h : readMapping ks place v = .ok es)
    (hes : ∀ e ∈ es, Schema.Variables ks e.2) : Schema.Matrix ks v := by
  rcases readMapping_eq_ok_iff.1 h with ⟨hnull, -⟩ | hmap
  · exact .inl hnull
  · right
    rw [hmap]
    exact hes

theorem exists_readMapping (h : Schema.Matrix ks v) :
    ∃ es, readMapping ks place v = .ok es ∧ ∀ e ∈ es, Schema.Variables ks e.2 := by
  rcases h with hnull | hmap
  · exact ⟨[], readMapping_eq_ok_iff.2 (.inl ⟨hnull, rfl⟩), List.forall_mem_nil _⟩
  · obtain ⟨es, hes, hall⟩ := Value.asMapping_iff.1 hmap
    exact ⟨es, readMapping_eq_ok_iff.2 (.inr hes), hall⟩

theorem readJob_eq_ok {i : Nat} {t : JobTemplate} (h : readJob ks i v = .ok t) :
    Schema.Job ks v ∧ t.Reads ks v := by
  obtain ⟨es, hes, h⟩ := bind_eq_ok h
  obtain ⟨name, hname, h⟩ := bind_eq_ok h
  obtain ⟨hname, hsome⟩ := requiredText_eq_ok_iff.1 hname
  obtain ⟨minutes, hminutes, h⟩ := bind_eq_ok h
  obtain ⟨himage, image, h⟩ := containerImage_eq_ok h
  obtain ⟨matrix, hmatrix, h⟩ := bind_eq_ok h
  obtain ⟨variants, hvariants, h⟩ := bind_eq_ok h
  obtain ⟨hbindings, rfl⟩ := readVariants_eq_ok hvariants
  obtain ⟨raw, hraw, h⟩ := bind_eq_ok h
  obtain ⟨hraw, hitems⟩ := readItems_eq_ok_iff.1 hraw
  obtain ⟨steps, hsteps, h⟩ := bind_eq_ok h
  obtain ⟨hschema, hsteps⟩ := readSteps_eq_ok hsteps
  obtain ⟨seconds, hseconds, h⟩ := bind_eq_ok h
  obtain ⟨jobVariables, hjobVariables, h⟩ := bind_eq_ok h
  obtain ⟨hvariables, rfl⟩ := readVariables_eq_ok hjobVariables
  cases h
  constructor
  -- Nothing at all is no job, since it has no name.
  · refine asMapping_of_readMapping hes ⟨?_, ?_, himage, ?_, ?_, hvariables⟩ fun hnil => hnil.1
    · rw [hname]
      exact hsome
    · exact isTimeLimit_getD_iff.1 (isTimeLimit_of_timeoutSeconds hminutes hseconds)
    · exact matrix_of_readMapping hmatrix hbindings
    · rw [hraw]
      exact ⟨hitems, hschema⟩
  · have hentries := entries_of_readMapping hes
    refine ⟨?_, ?_, ?_, ?_⟩
    · rw [Schema.nameOf, ← hentries, hname]
    · rw [← hentries]
    · rw [← hentries, ← entries_of_readMapping hmatrix]
    · rw [← hentries, hraw]
      exact hsteps

theorem exists_readJob (hks : ks.Writable) (hv : v.Writable) (h : Schema.Job ks v) (i : Nat) :
    ∃ t, readJob ks i v = .ok t := by
  obtain ⟨es, hes, hname, hlimit, himage, hmatrix, hsteps, hvariables⟩ := Value.asMapping_iff.1 h
  have hfield := Value.writable_field hks hv hes
  obtain ⟨name, hname, hsome⟩ := Value.asText_iff.1 hname
  refine exists_bind_ok (readMapping_eq_ok_iff.2 (.inr hes)) ?_
  refine exists_bind_ok (requiredText_eq_ok_iff.2 ⟨hname, hsome⟩) ?_
  -- The limit is checked here, but converted after the steps.
  have hlimit := isTimeLimit_getD_iff.2 hlimit
  refine exists_bind_ok (checkTimeout_of_isTimeLimit hlimit) ?_
  refine exists_containerImage himage fun image => ?_
  obtain ⟨matrix, hmatrix, hbindings⟩ := exists_readMapping hmatrix
  refine exists_bind_ok hmatrix ?_
  have hentries : ∀ e ∈ matrix, e.1.Writable ∧ e.2.Writable := by
    rw [entries_of_readMapping hmatrix]
    exact ((hfield _).follow hks).entries
  obtain ⟨variants, hvariants⟩ := exists_readVariants hks hentries hbindings []
  refine exists_bind_ok hvariants ?_
  obtain ⟨raw, hraw, hitems, hschema⟩ := Value.asList_iff.1 hsteps
  refine exists_bind_ok (readItems_eq_ok_iff.2 ⟨hraw, hitems⟩) ?_
  have hrawWritable := Value.writable_items hks (hfield _) hraw
  obtain ⟨steps, hsteps⟩ := exists_readSteps hks hrawWritable hschema 0
  refine exists_bind_ok hsteps ?_
  obtain ⟨seconds, hseconds⟩ := exists_timeoutSeconds hlimit
  refine exists_bind_ok hseconds ?_
  exact exists_bind_ok (readVariables_of_variables hks (hfield _) hvariables) ⟨_, rfl⟩

/-- What holds of each job that is read holds of all of them, in order. -/
theorem forall₂_readJobs {R : Value → JobTemplate → Prop} (hR : ∀ i x t, readJob ks i x =
    .ok t → R x t)
    {i : Nat} {xs : List Value} {jobs : List JobTemplate} (h : readJobs ks i xs = .ok jobs) :
    List.Forall₂ R xs jobs := by
  induction xs generalizing i jobs with
  | nil =>
    cases h
    exact .nil
  | cons x xs ih =>
    rw [readJobs] at h
    obtain ⟨job, hjob, h⟩ := bind_eq_ok h
    obtain ⟨rest, hrest, h⟩ := bind_eq_ok h
    cases h
    exact .cons (hR i x job hjob) (ih hrest)

theorem readJobs_eq_ok {i : Nat} {xs : List Value} {jobs : List JobTemplate}
    (h : readJobs ks i xs = .ok jobs) :
    (∀ x ∈ xs, Schema.Job ks x) ∧ List.Forall₂ (JobTemplate.Reads ks) xs jobs := by
  have hall : List.Forall₂ (fun x t => Schema.Job ks x ∧ t.Reads ks x) xs jobs :=
    forall₂_readJobs (fun _ _ _ => readJob_eq_ok) h
  constructor
  · intro x hx
    obtain ⟨t, -, hjob⟩ := exists_mem_of_forall₂ hall.flip hx
    exact hjob.1
  · exact hall.imp fun _ _ => And.right

theorem exists_readJobs (hks : ks.Writable) {xs : List Value} (hxs : ∀ x ∈ xs, x.Writable)
    (h : ∀ x ∈ xs, Schema.Job ks x) (i : Nat) : ∃ jobs, readJobs ks i xs = .ok jobs := by
  induction xs generalizing i with
  | nil => exact ⟨[], rfl⟩
  | cons x xs ih =>
    rw [List.forall_mem_cons] at hxs h
    obtain ⟨job, hjob⟩ := exists_readJob hks hxs.1 h.1 i
    obtain ⟨rest, hrest⟩ := ih hxs.2 h.2 (i + 1)
    exact exists_bind_ok hjob (exists_bind_ok hrest ⟨_, rfl⟩)

/-! ## Documents -/

/-- What a document has from the value. -/
structure PipelineDocument.Reads (ks : Knots) (v : Value) (d : PipelineDocument) : Prop where
  jobs :
    List.Forall₂ (JobTemplate.Reads ks)
        (ks.follow (Value.getD (ks.follow v).entries "jobs")).items
      d.jobs
  sharedVariables :
    d.sharedVariables = (ks.follow (Value.getD (ks.follow v).entries "variables")).bindings

theorem isEmpty_distinctTexts {xs : List Text} : (distinctTexts xs).isEmpty ↔ xs = [] := by
  rw [distinctTexts, Text.sortTexts, List.isEmpty_iff, ← List.length_eq_zero_iff,
    List.length_mergeSort, List.length_eq_zero_iff]
  cases xs with
  | nil => simp
  | cons x xs => simp [List.eraseDups_cons]

/-- No name occurs more than once if all are distinct. -/
theorem isEmpty_repeated_iff {names : List Text} : (repeated names).isEmpty ↔ names.Nodup := by
  rw [repeated, isEmpty_distinctTexts, List.filter_eq_nil_iff, List.nodup_iff_count_le_one]
  simp only [decide_eq_true_eq, not_lt]
  constructor
  -- Only the names that occur were counted.
  · intro h a
    by_cases ha : a ∈ names
    · exact h a ha
    · rw [List.count_eq_zero_of_not_mem ha]
      exact Nat.zero_le 1
  · exact fun h a _ => h a

/-- The names of the jobs are those in the values. -/
theorem map_nameOf {xs : List Value} {jobs : List JobTemplate}
    (h : List.Forall₂ (JobTemplate.Reads ks) xs jobs) :
    xs.map (Schema.nameOf ks) = (jobs.map JobTemplate.name).map some := by
  induction h with
  | nil => rfl
  | cons hjob _ ih => rw [List.map_cons, List.map_cons, List.map_cons, hjob.name, ih]

/-- Jobs have distinct names if the values do. -/
theorem nodup_nameOf_iff {xs : List Value} {jobs : List JobTemplate}
    (h : List.Forall₂ (JobTemplate.Reads ks) xs jobs) :
    (xs.map (Schema.nameOf ks)).Nodup ↔ (jobs.map JobTemplate.name).Nodup := by
  rw [map_nameOf h]
  exact List.nodup_map_iff fun a b hab => Option.some.inj hab

namespace PipelineDocument

/-- **A document that was read follows the schema**, and its parts are those of the value. -/
theorem ofKnotted_eq_ok {d : PipelineDocument} (h : ofKnotted ks v = .ok d) :
    Schema.Document ks v ∧ d.Reads ks v := by
  obtain ⟨es, hes, h⟩ := bind_eq_ok h
  obtain ⟨raw, hraw, h⟩ := bind_eq_ok h
  obtain ⟨hraw, hitems⟩ := readItems_eq_ok_iff.1 hraw
  obtain ⟨jobs, hjobs, h⟩ := bind_eq_ok h
  obtain ⟨hschema, hjobs⟩ := readJobs_eq_ok hjobs
  dsimp only at h
  split at h
  · rename_i hnames
    obtain ⟨trigger, htrigger, h⟩ := bind_eq_ok h
    obtain ⟨sharedVariables, hshared, h⟩ := bind_eq_ok h
    obtain ⟨hvariables, rfl⟩ := readVariables_eq_ok hshared
    cases h
    constructor
    · refine asMapping_of_readMapping hes ⟨?_, readTrigger_eq_ok htrigger, hvariables⟩
        fun hnil => hnil.1
      rw [hraw]
      exact ⟨hitems, hschema, (nodup_nameOf_iff hjobs).2 (isEmpty_repeated_iff.1 hnames)⟩
    · refine ⟨?_, ?_⟩
      · rw [← entries_of_readMapping hes, hraw]
        exact hjobs
      · rw [← entries_of_readMapping hes]
  · cases h

/-- **What follows the schema is read.** -/
theorem exists_ofKnotted (hks : ks.Writable) (hv : v.Writable) (h : Schema.Document ks v) :
    ∃ d, ofKnotted ks v = .ok d := by
  obtain ⟨es, hes, hjobs, htrigger, hvariables⟩ := Value.asMapping_iff.1 h
  have hfield := Value.writable_field hks hv hes
  obtain ⟨raw, hraw, hitems, hschema, hnames⟩ := Value.asList_iff.1 hjobs
  have hrawWritable := Value.writable_items hks (hfield _) hraw
  refine exists_bind_ok (readMapping_eq_ok_iff.2 (.inr hes)) ?_
  refine exists_bind_ok (readItems_eq_ok_iff.2 ⟨hraw, hitems⟩) ?_
  obtain ⟨jobs, hjobs⟩ := exists_readJobs hks hrawWritable hschema 0
  refine exists_bind_ok hjobs ?_
  have hdistinct := (nodup_nameOf_iff (readJobs_eq_ok hjobs).2).1 hnames
  rw [if_pos (isEmpty_repeated_iff.2 hdistinct)]
  obtain ⟨trigger, htrigger⟩ := exists_readTrigger htrigger
  refine exists_bind_ok htrigger ?_
  exact exists_bind_ok (readVariables_of_variables hks (hfield _) hvariables) ⟨_, rfl⟩

/-- **The values that stand for a document are those that follow the schema.** -/
theorem accepts_iff_schema (ks : Knots) (v : Value) (hks : ks.Writable) (hv : v.Writable) :
    (∃ d, ofKnotted ks v = .ok d) ↔ Schema.Document ks v :=
  ⟨fun ⟨_, hd⟩ => (ofKnotted_eq_ok hd).1, exists_ofKnotted hks hv⟩

/-- A decoded job with a time limit and a matrix. -/
def decodedJob (limit matrix : Value) : Value :=
  .map
    [(.text "name", .text "build"), (.text "timeout_minutes", limit), (.text "matrix", matrix),
      (.text "steps", .list
        [.map
          [(.text "script", .text "make"), (.text "env", .map [(.text "PATH", .text "/opt")]),
            (.text "additive", .list [.text "PATH"])]])]

/-- A decoded document of one job. -/
def decodedBuild (limit matrix : Value) : Value :=
  .map
    [(.text "trigger", .map
      [(.text "branches", .list [.text "main"]), (.text "exclude_paths", .null),
        (.text "path_policy", .text "recursive")]),
      (.text "variables", .map [(.text "VERBOSE", .bool true), (.int 7, .text "seven")]),
      (.text "jobs", .list [decodedJob limit matrix])]

/-- An integer as time limit is accepted, a truth value is not. -/
theorem accepts_iff_schema_decodedBuild :
    ((∃ d, ofKnotted [] (decodedBuild (.int 5) .null) = .ok d) ∧
      Schema.Document [] (decodedBuild (.int 5) .null)) ∧
    (¬ (∃ d, ofKnotted [] (decodedBuild (.bool true) .null) = .ok d) ∧
      ¬ Schema.Document [] (decodedBuild (.bool true) .null)) := by
  have hks : Knots.Writable [] := List.forall_mem_nil _
  have hint : Schema.Document [] (decodedBuild (.int 5) .null) := by decide +kernel
  have hbool : ¬ Schema.Document [] (decodedBuild (.bool true) .null) := by decide +kernel
  refine ⟨⟨?_, hint⟩, ?_, hbool⟩
  · have hwritable : (decodedBuild (.int 5) .null).hasUnwritable = false := by decide +kernel
    exact (accepts_iff_schema [] _ hks hwritable).2 hint
  · have hwritable : (decodedBuild (.bool true) .null).hasUnwritable = false := by decide +kernel
    exact mt (accepts_iff_schema [] _ hks hwritable).1 hbool

end PipelineDocument

end Conveyor
