import Conveyor.Proofs.Document.Acceptance
import Conveyor.Proofs.Job.Environment
import Mathlib.Data.List.Perm.Subperm

/-!
# Variants from the document to the instances

The entries of a matrix stand for variants, which are named by the texts of their keys. Keys that
differ may have the same text. Then there is one variant for all of them, at the place of the
first, with the bindings of the last, and the other entries are lost.

- `Schema.matrixOf`: the entries of a matrix in the decoded document.
- `JobInstance.Carries`: an instance with the bindings of an entry.
- `JobTemplate.Represents`: **what becomes of the entries of a matrix**.
- `JobTemplate.Faithful`: no entry is lost.
- `PipelineDocument.variants_of_entries`: every job represents its matrix. It is faithful to the
  matrix if the texts of the keys are distinct, and loses entries otherwise.
-/

namespace Conveyor

/-! ## Texts of keys -/

theorem nodup_eraseDups (texts : List Text) : texts.eraseDups.Nodup := by
  have hnil : (([] : List (Text × Unit)).map Prod.fst).Nodup := List.nodup_nil
  have hkeys := Assoc.nodup_putAll hnil (texts.map fun s => (s, ()))
  have htexts : (texts.map fun s => (s, ())).map Prod.fst = texts := by
    rw [List.map_map]
    exact List.map_id texts
  rwa [Assoc.keys_putAll, htexts] at hkeys

theorem eraseDups_of_nodup {texts : List Text} (h : texts.Nodup) :
    texts.eraseDups = texts := by
  induction texts with
  | nil => rfl
  | cons s texts ih =>
    rw [List.nodup_cons] at h
    have hkept : texts.filter (fun t => !t == s) = texts := by
      rw [List.filter_eq_self]
      intro t ht
      have hne : t ≠ s := fun heq => h.1 (heq ▸ ht)
      simpa using hne
    rw [List.eraseDups_cons, hkept, ih h.2]

/-- Texts are fewer when each is taken once, unless they are distinct. -/
theorem length_eraseDups_le (texts : List Text) :
    texts.eraseDups.length ≤ texts.length ∧
      (texts.eraseDups.length = texts.length ↔ texts.Nodup) := by
  have hsub : texts.eraseDups.Subperm texts :=
    (nodup_eraseDups texts).subperm fun s hs => List.mem_eraseDups.1 hs
  refine ⟨hsub.length_le, ?_, ?_⟩
  · intro hlength
    exact (hsub.perm_of_length_le hlength.ge).nodup_iff.1 (nodup_eraseDups texts)
  · intro hnodup
    rw [eraseDups_of_nodup hnodup]

/-! ## One job -/

/-- The entries of a job's matrix. -/
def Schema.matrixOf (ks : Knots) (v : Value) : List Value.Entry :=
  (ks.follow (Value.getD (ks.follow v).entries "matrix")).entries

/-- An instance of a template with the bindings of an entry of its matrix. -/
structure JobInstance.Carries (t : JobTemplate) (bindings : Bindings) (i : JobInstance) :
    Prop where
  env : ∀ name text, bindings.get? name = some text → i.env.get? name = some text
  image : resolveImage t.platform.containerImage bindings i.id = .ok i.platform.containerImage

/-- What becomes of the entries of a matrix. -/
structure JobTemplate.Represents (ks : Knots) (entries : List Value.Entry) (t : JobTemplate)
    (instances : List JobInstance) : Prop where
  /-- There is one variant for each text among the keys, in the order of the mapping. -/
  variants :
    instances.map JobInstance.variant =
      if entries.isEmpty then [none] else (entries.map fun e => e.1.plainText).eraseDups.map some
  /-- The last entry with a text is the one that counts. -/
  bindings : ∀ before e after, entries = before ++ e :: after →
    (∀ e' ∈ after, e'.1.plainText ≠ e.1.plainText) →
    ∀ i ∈ instances, i.variant = some e.1.plainText → i.Carries t (ks.follow e.2).bindings

/-- No entry of a matrix is lost: each has an instance of its own, in the order of the
mapping. -/
structure JobTemplate.Faithful (ks : Knots) (entries : List Value.Entry) (t : JobTemplate)
    (instances : List JobInstance) : Prop where
  length : instances.length = max 1 entries.length
  own : ∀ (k : Nat) (e : Value.Entry), entries[k]? = some e → ∃ i : JobInstance,
    instances[k]? = some i ∧ i.variant = some e.1.plainText ∧
      i.Carries t (ks.follow e.2).bindings

namespace JobTemplate

variable {ks : Knots} {x : Value} {t : JobTemplate} {vars : Bindings} {block : List JobInstance}

theorem map_variant_instances (h : t.instances vars = .ok block) :
    block.map JobInstance.variant = t.expandedVariants.map Prod.fst := by
  have hall := mapM_eq_ok h
  clear h
  generalize t.expandedVariants = variants at hall
  induction hall with
  | nil => rfl
  | cons hi _ ih => rw [List.map_cons, List.map_cons, ih, (instantiate_eq_ok hi).2.2.1]

/-- The variants that are expanded under a name are those of the matrix. -/
theorem mem_variants_of_expanded {name : Text} {bindings : Bindings}
    (h : (some name, bindings) ∈ t.expandedVariants) : (name, bindings) ∈ t.variants := by
  unfold expandedVariants at h
  split at h
  · simp at h
  · obtain ⟨v, hv, heq⟩ := List.mem_map.1 h
    cases heq
    exact hv

/-- The last pair with a key is the one that counts. -/
theorem lookup_putAll_last {β : Type} {before after : List (Text × β)} {key : Text}
    {value : β}
    (h : key ∉ after.map Prod.fst) :
    (Assoc.putAll [] (before ++ (key, value) :: after)).lookup key = some value := by
  have habsent : after.reverse.lookup key = none := by
    apply Assoc.lookup_of_not_mem
    rwa [List.map_reverse, List.mem_reverse]
  rw [Assoc.lookup_putAll, List.reverse_append, List.reverse_cons, List.append_assoc,
    List.lookup_append, habsent, Option.none_or, List.singleton_append, Assoc.lookup_pair,
    if_pos rfl,
    Option.some_or]

/-- What becomes of the entries of a matrix, for a job that was read from a value. -/
theorem represents_of_reads (hreads : t.Reads ks x) (h : t.instances vars = .ok block) :
    t.Represents ks (Schema.matrixOf ks x) block := by
  have hvariants : t.variants = Assoc.putAll [] ((Schema.matrixOf ks x).map fun e =>
      (e.1.plainText, (ks.follow e.2).bindings)) := hreads.variants
  generalize Schema.matrixOf ks x = entries at hvariants
  have hkeys : t.variants.map Prod.fst = (entries.map fun e => e.1.plainText).eraseDups := by
    rw [hvariants, Assoc.keys_putAll, List.map_map]
    rfl
  have hempty : t.variants.isEmpty = entries.isEmpty := by
    rw [← List.isEmpty_map (f := Prod.fst), hkeys]
    cases entries with
    | nil => rfl
    | cons e entries =>
      rw [List.map_cons, List.eraseDups_cons, List.isEmpty_cons, List.isEmpty_cons]
  refine ⟨?_, ?_⟩
  · rw [map_variant_instances h, expandedVariants, hempty]
    split
    · rfl
    · rw [← hkeys, List.map_map, List.map_map]
      rfl
  · intro before e after hentries hlast i hi hvariant
    obtain ⟨⟨variant, bindings⟩, hmem, hinstance⟩ := exists_instantiate h hi
    obtain ⟨himage, henv, hname, -, -⟩ := instantiate_eq_ok hinstance
    rw [hvariant] at hname
    subst hname
    -- The names of the variants are distinct, so the bindings are those found under the name.
    have hdistinct : (t.variants.map Prod.fst).Nodup := hkeys ▸ nodup_eraseDups _
    have hfound := Assoc.lookup_of_mem hdistinct (mem_variants_of_expanded hmem)
    have hlast' : e.1.plainText ∉
        (after.map fun e => (e.1.plainText, (ks.follow e.2).bindings)).map Prod.fst := by
      rw [List.map_map]
      intro hlater
      obtain ⟨e', he', heq⟩ := List.mem_map.1 hlater
      exact hlast e' he' heq
    rw [hvariants, hentries, List.map_append, List.map_cons, lookup_putAll_last hlast'] at hfound
    cases hfound
    refine ⟨fun name text htext => ?_, himage⟩
    rw [henv, instanceEnv_eq, Bindings.get?_update (Value.nodup_bindings _), htext,
      Option.some_or]

namespace Represents

variable {entries : List Value.Entry}

theorem length_eq (h : t.Represents ks entries block) :
    block.length = max 1 (entries.map fun e => e.1.plainText).eraseDups.length := by
  have hlength := congrArg List.length h.variants
  rw [List.length_map] at hlength
  rw [hlength]
  cases entries with
  | nil => rfl
  | cons e entries =>
    rw [List.isEmpty_cons, if_neg Bool.false_ne_true, List.length_map, List.map_cons,
      List.eraseDups_cons, List.length_cons]
    omega

/-- Entries whose keys have different texts are all kept. -/
theorem faithful (h : t.Represents ks entries block)
    (hdistinct : (entries.map fun e => e.1.plainText).Nodup) : t.Faithful ks entries block := by
  refine ⟨?_, fun k e hk => ?_⟩
  · rw [h.length_eq, eraseDups_of_nodup hdistinct, List.length_map]
  · have hsome : entries.isEmpty = false := by
      cases entries with
      | nil => cases hk
      | cons e entries => rfl
    have hvariants := h.variants
    rw [hsome, if_neg Bool.false_ne_true, eraseDups_of_nodup hdistinct,
      List.map_map] at hvariants
    have hat := congrArg (fun l => l[k]?) hvariants
    simp only [List.getElem?_map, hk, Option.map_some, Function.comp_apply] at hat
    obtain ⟨i, hi, hvariant⟩ := Option.map_eq_some_iff.1 hat
    obtain ⟨before, after, hentries⟩ : ∃ before after, entries = before ++ e :: after :=
      List.append_of_mem (List.mem_of_getElem? hk)
    refine ⟨i, hi, hvariant, h.bindings before e after hentries ?_ i (List.mem_of_getElem? hi)
      hvariant⟩
    intro e' he' heq
    rw [hentries, List.map_append, List.map_cons, List.nodup_append] at hdistinct
    exact (List.nodup_cons.1 hdistinct.2.1).1 (heq ▸ List.mem_map.2 ⟨e', he', rfl⟩)

/-- Where two keys have the same text, there are fewer instances than entries. -/
theorem length_lt (h : t.Represents ks entries block)
    (hrepeated : ¬ (entries.map fun e => e.1.plainText).Nodup) :
    block.length < entries.length := by
  obtain ⟨hle, hiff⟩ := length_eraseDups_le (entries.map fun e => e.1.plainText)
  have hne := mt hiff.1 hrepeated
  have hmany : 2 ≤ entries.length := by
    by_contra hfew
    refine hrepeated ?_
    match entries, hfew with
    | [], _ => exact List.nodup_nil
    | [e], _ => exact List.nodup_singleton _
    | _ :: _ :: _, hfew => exact absurd (Nat.le_add_left 2 _) hfew
  rw [List.length_map] at hle hne
  rw [h.length_eq]
  omega

end Represents

end JobTemplate

/-! ## All jobs -/

/-- Two relations between three lists, taken together. -/
theorem forall₂_zip_of {α β γ : Type} {R : α → β → Prop} {S : β → γ → Prop} {as : List α}
    {bs : List β} {cs : List γ} (hR : List.Forall₂ R as bs) (hS : List.Forall₂ S bs cs) :
    List.Forall₂ (fun p c => R p.1 p.2 ∧ S p.2 c) (as.zip bs) cs := by
  induction hR generalizing cs with
  | nil =>
    cases hS
    exact .nil
  | cons hab _ ih =>
    cases hS with
    | cons hbc hS => exact .cons ⟨hab, hbc⟩ (ih hS)

namespace PipelineDocument

/-- **What becomes of the matrices of a document.** The instances are those of the jobs, one job
after the other. Each job has one instance for each text among the keys of its matrix. If these
texts are distinct, every entry has an instance of its own; otherwise there are fewer instances
than entries. -/
theorem variants_of_entries {ks : Knots} {v : Value} {d : PipelineDocument} {vars : Bindings}
    {instances : List JobInstance} (hd : ofKnotted ks v = .ok d)
    (hinstances : expandAll d.jobs vars = .ok instances) :
    ∃ blocks : List (List JobInstance), instances = blocks.flatten ∧
      (ks.follow (Value.getD (ks.follow v).entries "jobs")).items.length = d.jobs.length ∧
      List.Forall₂
        (fun job block =>
          job.2.Represents ks (Schema.matrixOf ks job.1) block ∧
          (((Schema.matrixOf ks job.1).map fun e => e.1.plainText).Nodup →
            job.2.Faithful ks (Schema.matrixOf ks job.1) block) ∧
          (¬ ((Schema.matrixOf ks job.1).map fun e => e.1.plainText).Nodup →
            block.length < (Schema.matrixOf ks job.1).length))
        ((ks.follow (Value.getD (ks.follow v).entries "jobs")).items.zip d.jobs) blocks := by
  have hjobs := (ofKnotted_eq_ok hd).2.jobs
  obtain ⟨blocks, hflatten, hblocks⟩ := expandAll_blocks hinstances
  refine ⟨blocks, hflatten, hjobs.length_eq, (forall₂_zip_of hjobs hblocks).imp ?_⟩
  rintro ⟨x, t⟩ block ⟨hreads, hblock⟩
  have hrepresents := JobTemplate.represents_of_reads hreads hblock
  exact ⟨hrepresents, hrepresents.faithful, hrepresents.length_lt⟩

/-- Two architectures under the given keys. -/
def architectures (first second : Value) : Value :=
  .map
    [(first, .map [(.text "ARCH", .text "x86")]), (second, .map [(.text "ARCH", .text "arm")])]

/-- What a document of one job expands to, if it does: the ids and the architectures. -/
def expandedArchitectures (v : Value) : Option (List (Text × Option Text)) :=
  match ofKnotted [] v with
  | .error _ => none
  | .ok d =>
    match expandAll d.jobs [] with
    | .error _ => none
    | .ok instances => some (instances.map fun i => (i.id, i.env.get? "ARCH"))

theorem exists_of_expandedArchitectures {v : Value} {shown : List (Text × Option Text)}
    (h : expandedArchitectures v = some shown) :
    ∃ (d : PipelineDocument) (instances : List JobInstance), ofKnotted [] v = .ok d ∧
      expandAll d.jobs [] = .ok instances ∧
      instances.map (fun i => (i.id, i.env.get? "ARCH")) = shown := by
  unfold expandedArchitectures at h
  split at h
  · cases h
  · rename_i d hd
    split at h
    · cases h
    · rename_i instances hinstances
      exact ⟨d, instances, hd, hinstances, Option.some.inj h⟩

/-- An integer and a text with different texts: both entries are kept. -/
theorem variants_of_entries_architectures :
    ∃ (d : PipelineDocument) (t : JobTemplate) (instances : List JobInstance),
      ofKnotted [] (decodedBuild (.int 5) (architectures (.int 1) (.text "2"))) = .ok d ∧
      expandAll d.jobs [] = .ok instances ∧ d.jobs = [t] ∧
      t.Faithful [] (architectures (.int 1) (.text "2")).entries instances := by
  have hshown : expandedArchitectures
      (decodedBuild (.int 5) (architectures (.int 1) (.text "2"))) =
      some ([("build.1", some "x86"), ("build.2", some "arm")] : List (Text × Option Text)) := by
        decide +kernel
  obtain ⟨d, instances, hd, hinstances, -⟩ := exists_of_expandedArchitectures hshown
  obtain ⟨blocks, hflatten, hlength, hall⟩ := variants_of_entries hd hinstances
  obtain ⟨t, ht⟩ : ∃ t, d.jobs = [t] := List.length_eq_one_iff.1 hlength.symm
  refine ⟨d, t, instances, hd, hinstances, ht, ?_⟩
  rw [ht] at hall
  obtain ⟨block, rest, ⟨-, hfaithful, -⟩, hrest, rfl⟩ := List.forall₂_cons_left_iff.1 hall
  have hnone : rest = [] := List.forall₂_nil_left_iff.1 hrest
  rw [hflatten, hnone, List.flatten_cons, List.flatten_nil, List.append_nil]
  have hdistinct :
      ((architectures (.int 1) (.text "2")).entries.map fun e => e.1.plainText).Nodup := by
    decide +kernel
  exact hfaithful hdistinct

/-- **Two entries of a matrix share a variant**, and the first is lost: an integer and a text
with the same text are different keys. -/
theorem lost_variant :
    ∃ (d : PipelineDocument) (instances : List JobInstance),
      ofKnotted [] (decodedBuild (.int 5) (architectures (.int 1) (.text "1"))) = .ok d ∧
      expandAll d.jobs [] = .ok instances ∧
      instances.map (fun i => (i.id, i.env.get? "ARCH")) =
        ([("build.1", some "arm")] : List (Text × Option Text)) ∧
      ¬ instances.length = max 1 (architectures (.int 1) (.text "1")).entries.length := by
  have hshown : expandedArchitectures
      (decodedBuild (.int 5) (architectures (.int 1) (.text "1"))) =
      some ([("build.1", some "arm")] : List (Text × Option Text)) := by decide +kernel
  obtain ⟨d, instances, hd, hinstances, hmap⟩ := exists_of_expandedArchitectures hshown
  refine ⟨d, instances, hd, hinstances, hmap, ?_⟩
  have hlength := congrArg List.length hmap
  rw [List.length_map] at hlength
  rw [hlength]
  decide

end PipelineDocument

end Conveyor
