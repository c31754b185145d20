import Conveyor.Job.Instance
import Conveyor.Proofs.Fallible
import Mathlib.Data.List.Nodup

/-!
# Expanding templates

Templates that can be expanded have one instance for each variant, in order, and no two instances
have the same id.

- `JobTemplate.variantsOf`: the variants of some templates, each with its template.
- `JobTemplate.Instance`: an instance of a variant of a template.
- `expandAll_blocks`: the instances of all templates are those of each, one after the other.
- `expandAll_eq_ok`: **what templates expand to**.
-/

namespace Conveyor

namespace JobTemplate

/-- The variants of some templates, each with its template. -/
def variantsOf (templates : List JobTemplate) : List (JobTemplate × Option Text) :=
  templates.flatMap fun t => t.expandedVariants.map fun v => (t, v.1)

/-- An instance of a variant of a template. -/
structure Instance (v : JobTemplate × Option Text) (i : JobInstance) : Prop where
  id : i.id = instanceId v.1.name v.2
  templateName : i.templateName = v.1.name
  variant : i.variant = v.2
  steps : i.steps = v.1.steps

theorem instance_of_instantiate {t : JobTemplate} {vars bindings : Bindings}
    {variant : Option Text} {i : JobInstance} (h : t.instantiate vars variant bindings =
        .ok i) :
    Instance (t, variant) i := by
  obtain ⟨image, -, h⟩ := bind_eq_ok h
  cases h
  exact ⟨rfl, rfl, rfl, rfl⟩

/-- The instances of one template. -/
theorem instances_eq_ok {t : JobTemplate} {vars : Bindings} {jobs : List JobInstance}
    (h : t.instances vars = .ok jobs) :
    List.Forall₂ Instance (t.expandedVariants.map fun v => (t, v.1)) jobs := by
  rw [List.forall₂_map_left_iff]
  exact (mapM_eq_ok h).imp fun _ _ => instance_of_instantiate

end JobTemplate

/-- Instances are appended only if all ids differ. -/
theorem appendDistinct_eq_ok {acc more out : List JobInstance} (h : appendDistinct acc more =
    .ok out)
    (hacc : (acc.map JobInstance.id).Nodup) :
    out = acc ++ more ∧ (out.map JobInstance.id).Nodup := by
  induction more generalizing acc with
  | nil =>
    cases h
    exact ⟨(List.append_nil out).symm, hacc⟩
  | cons i rest ih =>
    unfold appendDistinct at h
    split at h
    · cases h
    · rename_i hnew
      have hdistinct : ((acc ++ [i]).map JobInstance.id).Nodup := by
        rw [List.map_append, List.map_singleton, List.nodup_append]
        refine ⟨hacc, List.nodup_singleton _, fun a ha b hb hab => ?_⟩
        obtain ⟨j, hj, rfl⟩ := List.mem_map.1 ha
        rw [List.mem_singleton] at hb
        refine hnew (List.any_eq_true.2 ⟨j, hj, ?_⟩)
        exact decide_eq_true (hab.trans hb)
      obtain ⟨hout, hids⟩ := ih h hdistinct
      refine ⟨?_, hids⟩
      rw [hout, List.append_assoc, List.singleton_append]

/-- The instances of each template are appended one after the other. -/
theorem expandFrom_blocks {vars : Bindings} {acc jobs : List JobInstance}
    {templates : List JobTemplate}
    (h : expandFrom vars acc templates = .ok jobs) (hids : (acc.map JobInstance.id).Nodup) :
    (jobs.map JobInstance.id).Nodup ∧ ∃ blocks : List (List JobInstance), jobs = acc ++
    blocks.flatten ∧
      List.Forall₂ (fun t block => t.instances vars = .ok block) templates blocks := by
  induction templates generalizing acc with
  | nil =>
    cases h
    exact ⟨hids, [], (List.append_nil jobs).symm, .nil⟩
  | cons t rest ih =>
    rw [expandFrom] at h
    obtain ⟨block, hblock, h⟩ := bind_eq_ok h
    obtain ⟨out, hout, h⟩ := bind_eq_ok h
    obtain ⟨rfl, hids'⟩ := appendDistinct_eq_ok hout hids
    obtain ⟨hnodup, blocks, rfl, hblocks⟩ := ih h hids'
    refine ⟨hnodup, block :: blocks, ?_, .cons hblock hblocks⟩
    rw [List.flatten_cons, List.append_assoc]

variable {templates : List JobTemplate} {vars : Bindings} {jobs : List JobInstance}

/-- **The instances of all templates are those of each, one after the other.** -/
theorem expandAll_blocks (h : expandAll templates vars = .ok jobs) :
    ∃ blocks : List (List JobInstance), jobs = blocks.flatten ∧
      List.Forall₂ (fun t block => t.instances vars = .ok block) templates blocks :=
  (expandFrom_blocks h List.nodup_nil).2

/-- What holds between the variants of each template and its instances holds between those of
all. -/
theorem forall₂_of_expandAll {α : Type} {R : α → JobInstance → Prop} {f : JobTemplate → List α}
    (h : expandAll templates vars = .ok jobs)
    (heach : ∀ t block, t.instances vars = .ok block → List.Forall₂ R (f t) block) :
    List.Forall₂ R (templates.flatMap f) jobs := by
  obtain ⟨blocks, rfl, hblocks⟩ := expandAll_blocks h
  clear h
  induction hblocks with
  | nil => exact .nil
  | cons hblock _ ih =>
    rw [List.flatMap_cons, List.flatten_cons]
    exact List.rel_append (heach _ _ hblock) ih

/-- **Templates that can be expanded have one instance for each variant, in order**, and all ids
differ. -/
theorem expandAll_eq_ok (h : expandAll templates vars = .ok jobs) :
    (jobs.map JobInstance.id).Nodup ∧
      List.Forall₂ JobTemplate.Instance (JobTemplate.variantsOf templates) jobs :=
  ⟨(expandFrom_blocks h List.nodup_nil).1,
    forall₂_of_expandAll h fun _ _ => JobTemplate.instances_eq_ok⟩

end Conveyor
