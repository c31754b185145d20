import Conveyor.Command.Run
import Conveyor.Proofs.Job.Environment
import Mathlib.Algebra.GroupWithZero.Nat
import Mathlib.Algebra.Order.BigOperators.Group.List
import Mathlib.Data.List.Count

/-!
# Which templates can be expanded

Expanding templates fails for two reasons: the image of some variant cannot be resolved with the
variant's own bindings, or two variants of all the templates have the same id.

- `TemplateVariant`, `JobTemplate.declared`: the variants that some templates declare.
- `Expandable`: neither reason is there.
- `TemplateVariant.Expanded`: the instance of a variant.
- `ExpansionFault.Arises`: a fault for one of the two reasons.
- `expandAll_outcome`: **templates are expanded if neither reason is there, and refused
  otherwise**.
-/

namespace Conveyor

/-- A variant of a template. -/
structure TemplateVariant where
  template : JobTemplate
  name : Option Text
  bindings : Bindings

namespace TemplateVariant

/-- The id of the variant's instance. -/
def id (v : TemplateVariant) : Text := instanceId v.template.name v.name

/-- The image of the variant, or why it has none; the id of a job is for the complaint. -/
def image (v : TemplateVariant) (jobId : Text) : Except ExpansionFault (Option Text) :=
  resolveImage v.template.platform.containerImage v.bindings jobId

/-- The instance of a variant: its image comes from the variant's own bindings alone. -/
structure Expanded (v : TemplateVariant) (i : JobInstance) : Prop
    extends JobTemplate.Instance (v.template, v.name) i where
  timeoutSeconds : i.timeoutSeconds = v.template.timeoutSeconds
  poolImage : i.platform.poolImage = v.template.platform.poolImage
  image (jobId : Text) : v.image jobId = .ok i.platform.containerImage

end TemplateVariant

/-- The variants that a template declares, in order: those of its matrix, or one without
bindings. -/
def JobTemplate.declared (t : JobTemplate) : List TemplateVariant :=
  if t.variants = [] then [⟨t, none, []⟩] else t.variants.map fun v => ⟨t, some v.1, v.2⟩

/-- The variants of some templates, one template after the other. -/
def declaredBy (templates : List JobTemplate) : List TemplateVariant :=
  templates.flatMap JobTemplate.declared

/-- Every image can be resolved, and no id stands for two variants. -/
structure Expandable (templates : List JobTemplate) : Prop where
  resolves : ∀ v ∈ declaredBy templates, ∃ image, v.image v.id = .ok image
  distinct : ((declaredBy templates).map TemplateVariant.id).Nodup

/-- The fault says why templates cannot be expanded: an image is at fault, or an id stands for
two variants. -/
inductive ExpansionFault.Arises (templates : List JobTemplate) : ExpansionFault → Prop
  | image {v : TemplateVariant} {fault : ExpansionFault} (declared : v ∈ declaredBy templates)
      (unresolved : v.image v.id = .error fault) : Arises templates fault
  | duplicate {id : Text} (repeated : 2 ≤
      ((declaredBy templates).map TemplateVariant.id).count id) :
      Arises templates (.duplicateInstance id)

/-! ## The instances of variants -/

variable {vars : Bindings} {templates : List JobTemplate}

/-- The ids of instances are those of their variants. -/
theorem TemplateVariant.map_id_eq {vs : List TemplateVariant} {jobs : List JobInstance}
    (h : List.Forall₂ Expanded vs jobs) :
    jobs.map JobInstance.id = vs.map TemplateVariant.id := by
  induction h with
  | nil => rfl
  | @cons v i _ _ hhead _ ih =>
    have hid : i.id = v.id := hhead.id
    rw [List.map_cons, List.map_cons, hid, ih]

/-- The id of the job is only for the complaint. -/
theorem resolveImage_eq_ok {image resolved : Option Text} {bindings : Bindings}
    {jobId : Text}
    (h : resolveImage image bindings jobId = .ok resolved) (jobId' : Text) :
    resolveImage image bindings jobId' = .ok resolved := by
  unfold resolveImage at h ⊢
  split at h
  · exact h
  · split at h
    · exact h
    · cases h
    · cases h

namespace JobTemplate

theorem declared_eq (t : JobTemplate) :
    t.declared = t.expandedVariants.map fun v => ⟨t, v.1, v.2⟩ := by
  unfold declared expandedVariants
  cases t.variants with
  | nil => rfl
  | cons v rest =>
    rw [if_neg (List.cons_ne_nil v rest), List.isEmpty_cons, if_neg Bool.false_ne_true,
      List.map_map]
    rfl

theorem length_declared (t : JobTemplate) : t.declared.length = max 1 t.variants.length := by
  unfold declared
  split
  · rename_i h
    rw [h]
    rfl
  · rename_i h
    rw [List.length_map, Nat.max_eq_right (List.length_pos_iff.2 h)]

theorem expanded_of_instantiate {t : JobTemplate} {name : Option Text} {bindings : Bindings}
    {i : JobInstance} (h : t.instantiate vars name bindings = .ok i) :
    TemplateVariant.Expanded ⟨t, name, bindings⟩ i := by
  have hinstance := instance_of_instantiate h
  obtain ⟨image, himage, h⟩ := bind_eq_ok h
  cases h
  exact ⟨hinstance, rfl, rfl, fun jobId => resolveImage_eq_ok himage jobId⟩

/-- The instances of a template are those of its variants. -/
theorem expanded_of_instances {t : JobTemplate} {block : List JobInstance}
    (h : t.instances vars = .ok block) :
    List.Forall₂ TemplateVariant.Expanded t.declared block := by
  rw [declared_eq, List.forall₂_map_left_iff]
  exact (mapM_eq_ok h).imp fun _ _ => expanded_of_instantiate

/-- A template has no instances only if the image of a variant is at fault. -/
theorem fault_of_instances {t : JobTemplate} {fault : ExpansionFault}
    (h : t.instances vars = .error fault) : ∃ v ∈ t.declared, v.image v.id = .error fault := by
  obtain ⟨v, hv, hfault⟩ := exists_of_mapM_eq_error h
  refine ⟨⟨t, v.1, v.2⟩, ?_, ?_⟩
  · rw [declared_eq]
    exact List.mem_map_of_mem hv
  · rcases bind_eq_error hfault with himage | ⟨image, -, hok⟩
    · exact himage
    · cases hok

end JobTemplate

theorem length_declaredBy (templates : List JobTemplate) :
    (declaredBy templates).length = (templates.map fun t => max 1 t.variants.length).sum := by
  unfold declaredBy
  rw [List.length_flatMap]
  simp only [JobTemplate.length_declared]

/-! ## Templates that are expanded, and templates that are not -/

/-- The instances of templates that are expanded are those of the variants. -/
theorem expanded_of_expandAll {jobs : List JobInstance} (h : expandAll templates vars =
    .ok jobs) :
    List.Forall₂ TemplateVariant.Expanded (declaredBy templates) jobs :=
  forall₂_of_expandAll h fun _ _ => JobTemplate.expanded_of_instances

/-- Instances cannot be appended if an id stands for two of them. -/
theorem count_of_appendDistinct_error {acc more : List JobInstance} {fault : ExpansionFault}
    (h : appendDistinct acc more = .error fault) :
    ∃ id, fault = .duplicateInstance id ∧ 2 ≤ ((acc ++ more).map JobInstance.id).count id := by
  induction more generalizing acc with
  | nil => cases h
  | cons i rest ih =>
    unfold appendDistinct at h
    split at h
    · rename_i hused
      cases h
      refine ⟨i.id, rfl, ?_⟩
      obtain ⟨j, hj, heq⟩ := List.any_eq_true.1 hused
      have hacc : 0 < (acc.map JobInstance.id).count i.id :=
        List.count_pos_iff.2 (List.mem_map.2 ⟨j, hj, of_decide_eq_true heq⟩)
      rw [List.map_append, List.count_append, List.map_cons, List.count_cons_self]
      omega
    · have hrest := ih h
      rwa [List.append_assoc, List.singleton_append] at hrest

/-- A fault on top of instances expanded so far: an image is at fault, or an id stands for two
variants, or for one of them and an instance. -/
theorem fault_of_expandFrom {acc : List JobInstance} {fault : ExpansionFault}
    (h : expandFrom vars acc templates = .error fault) (hacc : (acc.map JobInstance.id).Nodup) :
    (∃ v ∈ declaredBy templates, v.image v.id = .error fault) ∨
      ∃ id, fault = .duplicateInstance id ∧
        2 ≤ (acc.map JobInstance.id ++ (declaredBy templates).map TemplateVariant.id).count
        id := by
  induction templates generalizing acc with
  | nil => cases h
  | cons t rest ih =>
    rw [expandFrom] at h
    rw [declaredBy, List.flatMap_cons, ← declaredBy]
    rcases bind_eq_error h with himage | ⟨block, hblock, h⟩
    · obtain ⟨v, hv, hfault⟩ := JobTemplate.fault_of_instances himage
      exact .inl ⟨v, List.mem_append_left _ hv, hfault⟩
    -- The ids so far are then those of the variants of this template as well.
    have hids : block.map JobInstance.id = t.declared.map TemplateVariant.id :=
      TemplateVariant.map_id_eq (JobTemplate.expanded_of_instances hblock)
    rcases bind_eq_error h with hclash | ⟨out, hout, h⟩
    · obtain ⟨id, rfl, hcount⟩ := count_of_appendDistinct_error hclash
      refine .inr ⟨id, rfl, ?_⟩
      rw [List.map_append, hids] at hcount
      rw [List.map_append, ← List.append_assoc, List.count_append]
      exact Nat.le_add_right_of_le hcount
    · obtain ⟨rfl, hdistinct⟩ := appendDistinct_eq_ok hout hacc
      rcases ih h hdistinct with ⟨v, hv, hfault⟩ | ⟨id, rfl, hcount⟩
      · exact .inl ⟨v, List.mem_append_right _ hv, hfault⟩
      · refine .inr ⟨id, rfl, ?_⟩
        rwa [List.map_append, ← List.append_assoc, ← hids, ← List.map_append]

theorem arises_of_expandAll {fault : ExpansionFault} (h : expandAll templates vars =
    .error fault) :
    fault.Arises templates := by
  rcases fault_of_expandFrom h List.nodup_nil with ⟨v, hv, hfault⟩ | ⟨id, rfl, hcount⟩
  · exact .image hv hfault
  · exact .duplicate hcount

/-- Templates for which a fault arises cannot be expanded. -/
theorem ExpansionFault.Arises.not_expandable {fault : ExpansionFault}
    (h : fault.Arises templates) :
    ¬ Expandable templates := by
  intro hexpandable
  cases h with
  | @image v _ hv hfault =>
    obtain ⟨image, hok⟩ := hexpandable.resolves v hv
    rw [hfault] at hok
    cases hok
  | @duplicate id hcount =>
    have hone := List.nodup_iff_count_le_one.1 hexpandable.distinct id
    omega

/-- Templates that are expanded can be. -/
theorem expandable_of_expandAll {jobs : List JobInstance} (h : expandAll templates vars =
    .ok jobs) :
    Expandable templates := by
  have hexpanded := expanded_of_expandAll h
  constructor
  · intro v hv
    obtain ⟨i, -, hi⟩ := exists_mem_of_forall₂ hexpanded.flip hv
    exact ⟨_, hi.image v.id⟩
  · rw [← TemplateVariant.map_id_eq hexpanded]
    exact (expandAll_eq_ok h).1

/-- **Templates are expanded if every image can be resolved and no id stands for two variants,
and refused otherwise.** The variables of the run have no part in this. There is one instance for
each variant, in order, and the ids differ; a refusal is an error in what the user configured. -/
theorem expandAll_outcome (templates : List JobTemplate) (vars : Bindings) :
    (Expandable templates →
      ∃ jobs, expandAll templates vars = .ok jobs ∧
        List.Forall₂ TemplateVariant.Expanded (declaredBy templates) jobs ∧
        jobs.length = (templates.map fun t => max 1 t.variants.length).sum ∧
        (jobs.map JobInstance.id).Nodup) ∧
      (¬ Expandable templates →
        ∃ fault, expandAll templates vars = .error fault ∧ fault.Arises templates ∧
          (CommandFault.run (.expansion fault)).isConfiguration = true) := by
  constructor
  · intro hexpandable
    cases hall : expandAll templates vars with
    | error fault => exact absurd hexpandable (arises_of_expandAll hall).not_expandable
    | ok jobs =>
      have hexpanded := expanded_of_expandAll hall
      refine ⟨jobs, rfl, hexpanded, ?_, (expandAll_eq_ok hall).1⟩
      rw [← length_declaredBy, hexpanded.length_eq]
  · intro hnot
    cases hall : expandAll templates vars with
    | ok jobs => exact absurd (expandable_of_expandAll hall) hnot
    | error fault => exact ⟨fault, rfl, arises_of_expandAll hall, rfl⟩

/-- A template whose image names the version that its variant binds, and one without an image. -/
def versioned (other : Text) : List JobTemplate :=
  [{ name := "test"
     platform := ⟨.text "small", some "python:$version"⟩
     steps := [⟨"run", "exit 0", [], []⟩]
     timeoutSeconds := .ofInt 60
     jobVariables := [("version", "3")]
     variants := [("old", [("version", "3.8")]), ("new", [("version", "3.12")])] },
   { name := other
     platform := ⟨.null, none⟩
     steps := []
     timeoutSeconds := .ofInt 60
     jobVariables := []
     variants := [] }]

/-- The templates are expanded, unless the other one has the id of a variant. -/
theorem expandAll_outcome_versioned :
    (∃ jobs, expandAll (versioned "lint") [("version", "2")] = .ok jobs ∧ jobs.length = 3 ∧
        List.Forall₂ TemplateVariant.Expanded (declaredBy (versioned "lint")) jobs) ∧
      ∃ fault, expandAll (versioned "test.new") [] = .error fault ∧
      fault.Arises (versioned "test.new") := by
  constructor
  · have hexpandable : Expandable (versioned "lint") := by
      constructor
      · intro v hv
        rcases List.mem_cons.1 hv with rfl | hv
        · exact ⟨some "python:3.8", by decide +kernel⟩
        rcases List.mem_cons.1 hv with rfl | hv
        · exact ⟨some "python:3.12", by decide +kernel⟩
        rcases List.mem_singleton.1 hv with rfl
        exact ⟨none, rfl⟩
      · decide +kernel
    obtain ⟨jobs, hok, hexpanded, hlength, -⟩ :=
      (expandAll_outcome (versioned "lint") _).1 hexpandable
    exact ⟨jobs, hok, hlength, hexpanded⟩
  · have hclash : ¬ Expandable (versioned "test.new") :=
      fun h => absurd h.distinct (by decide +kernel)
    obtain ⟨fault, hfault, harises, -⟩ := (expandAll_outcome (versioned "test.new") _).2 hclash
    exact ⟨fault, hfault, harises⟩

end Conveyor
