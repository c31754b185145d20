import Conveyor.Store.Tables
import Mathlib.Data.List.Nodup

/-!
# Integrity of the tables

Each statement keeps the tables in order: nothing refers to what is not there, nothing is
recorded twice, and the jobs of a run stand in the order in which they were recorded.

- `Tables.Sound`: tables that fit together.
- `Tables.Sound.addRun`, `.mapRuns`, `.deleteRun`, `.deleteJob`, `.addJob`, `.addSteps`: what
  statements do to the tables keeps that.
- `Tables.jobsOf_of_sound`: listing the jobs of a run by position is listing them as they stand.
-/

namespace Conveyor

namespace Cell

/-- A text matches only itself. -/
theorem meets_text {s : String} {c : Cell} : (Cell.text s).meets c = true ↔ c = .text s := by
  simp [meets, eq_comm]

/-- Matching is being the same cell, unless both are empty. -/
theorem meets_iff {a b : Cell} : a.meets b = true ↔ a ≠ .null ∧ a = b := by
  simp [meets]

end Cell

namespace Tables

/-- Tables that fit together. -/
structure Sound (t : Tables) : Prop where
  /-- No two runs have the same id. -/
  runs : (t.runs.map RunRow.id).Nodup
  /-- Each job is one of a run. -/
  jobRuns : ∀ j ∈ t.jobs, ∃ r ∈ t.runs, r.id = j.runId
  /-- No job of a run is there twice. -/
  jobs : (t.jobs.map fun j => (j.runId, j.jobId)).Nodup
  /-- The jobs of a run stand in the order of their positions, and no two have the same. -/
  positions : t.jobs.Pairwise fun a b => a.runId = b.runId → a.position < b.position
  /-- Each step is one of a job. -/
  stepJobs : ∀ s ∈ t.steps, ∃ j ∈ t.jobs, j.runId = s.runId ∧ j.jobId = s.jobId

variable {t t' : Tables}

theorem sound_blank : blank.Sound where
  runs := .nil
  jobRuns _ h := absurd h List.not_mem_nil
  jobs := .nil
  positions := .nil
  stepJobs _ h := absurd h List.not_mem_nil

theorem hasRun_iff {id : Cell} : t.hasRun id = true ↔ id ≠ .null ∧ ∃ r ∈ t.runs, r.id = id := by
  simp only [hasRun, List.any_eq_true, Cell.meets_iff]
  constructor
  · rintro ⟨r, hr, hne, rfl⟩
    exact ⟨hne, r, hr, rfl⟩
  · rintro ⟨hne, r, hr, rfl⟩
    exact ⟨r, hr, hne, rfl⟩

theorem hasJob_iff {runId jobId : Cell} : t.hasJob runId jobId = true ↔
    runId ≠ .null ∧ jobId ≠ .null ∧ ∃ j ∈ t.jobs, j.runId = runId ∧ j.jobId = jobId := by
  simp only [hasJob, List.any_eq_true, Bool.and_eq_true, Cell.meets_iff]
  constructor
  · rintro ⟨j, hj, ⟨hrun, rfl⟩, hjob, rfl⟩
    exact ⟨hrun, hjob, j, hj, rfl, rfl⟩
  · rintro ⟨hrun, hjob, j, hj, rfl, rfl⟩
    exact ⟨j, hj, ⟨hrun, rfl⟩, hjob, rfl⟩

/-! ## Statements on runs -/

/-- One run more. -/
theorem Sound.addRun (h : t.Sound) {r : RunRow} (hid : r.id ≠ .null) (hno : t.hasRun r.id =
    false) :
    Sound { t with runs := t.runs ++ [r] } := by
  have hnew : ∀ o ∈ t.runs, o.id ≠ r.id := by
    intro o ho heq
    have hrun : t.hasRun r.id = true := hasRun_iff.2 ⟨hid, o, ho, heq⟩
    rw [hno] at hrun
    cases hrun
  refine ⟨?_, ?_, h.jobs, h.positions, h.stepJobs⟩
  · rw [List.map_append, List.map_singleton]
    refine h.runs.append (List.nodup_singleton r.id) ?_
    intro id hmem hone
    obtain ⟨o, ho, rfl⟩ := List.mem_map.1 hmem
    exact hnew o ho (List.mem_singleton.1 hone)
  · intro j hj
    obtain ⟨o, ho, heq⟩ := h.jobRuns j hj
    exact ⟨o, List.mem_append_left _ ho, heq⟩

/-- Runs with other statuses and ends. -/
theorem Sound.mapRuns (h : t.Sound) {g : RunRow → RunRow} (hg : ∀ o, (g o).id = o.id) :
    Sound { t with runs := t.runs.map g } := by
  refine ⟨?_, ?_, h.jobs, h.positions, h.stepJobs⟩
  · have hids : (t.runs.map g).map RunRow.id = t.runs.map RunRow.id := by
      rw [List.map_map]
      exact List.map_congr_left fun o _ => hg o
    rw [hids]
    exact h.runs
  · intro j hj
    obtain ⟨o, ho, heq⟩ := h.jobRuns j hj
    exact ⟨g o, List.mem_map_of_mem ho, (hg o).trans heq⟩

/-- A run is deleted with its jobs and steps, and no other. -/
theorem Sound.deleteRun (h : t.Sound) (id : Cell) : (t.deleteRun id).Sound := by
  refine ⟨?_, ?_, ?_, h.positions.filter _, ?_⟩
  · exact h.runs.sublist (List.filter_sublist.map RunRow.id)
  · intro j hj
    obtain ⟨hmem, hother⟩ := List.mem_filter.1 hj
    obtain ⟨r, hr, heq⟩ := h.jobRuns j hmem
    exact ⟨r, List.mem_filter.2 ⟨hr, by rw [heq]; exact hother⟩, heq⟩
  · exact h.jobs.sublist (List.filter_sublist.map _)
  · intro s hs
    obtain ⟨hmem, hother⟩ := List.mem_filter.1 hs
    obtain ⟨j, hj, hrun, hjob⟩ := h.stepJobs s hmem
    exact ⟨j, List.mem_filter.2 ⟨hj, by rw [hrun]; exact hother⟩, hrun, hjob⟩

/-! ## Statements on jobs and steps -/

/-- A job is deleted with its steps, and no other. -/
theorem Sound.deleteJob (h : t.Sound) (runId jobId : Cell) :
    (t.deleteJob runId jobId).Sound := by
  refine ⟨h.runs, ?_, ?_, h.positions.filter _, ?_⟩
  · exact fun j hj => h.jobRuns j (List.mem_filter.1 hj).1
  · exact h.jobs.sublist (List.filter_sublist.map _)
  · intro s hs
    obtain ⟨hmem, hother⟩ := List.mem_filter.1 hs
    obtain ⟨j, hj, hrun, hjob⟩ := h.stepJobs s hmem
    exact ⟨j, List.mem_filter.2 ⟨hj, by rw [hrun, hjob]; exact hother⟩, hrun, hjob⟩

/-- One job more, after those of its run. -/
theorem Sound.addJob (h : t.Sound) {j : JobRow} (hid : j.jobId ≠ .null)
    (hrun : t.hasRun j.runId = true) (hno : t.hasJob j.runId j.jobId = false)
    (hpos : ∀ k ∈ t.jobs, k.runId = j.runId → k.position < j.position) :
    Sound { t with jobs := t.jobs ++ [j] } := by
  obtain ⟨hrunId, r, hr, heq⟩ := hasRun_iff.1 hrun
  have hnew : ∀ k ∈ t.jobs, (k.runId, k.jobId) ≠ (j.runId, j.jobId) := by
    intro k hk hsame
    obtain ⟨hkrun, hkjob⟩ := Prod.mk.inj hsame
    have hjob : t.hasJob j.runId j.jobId = true :=
      hasJob_iff.2 ⟨hrunId, hid, k, hk, hkrun, hkjob⟩
    rw [hno] at hjob
    cases hjob
  refine ⟨h.runs, ?_, ?_, ?_, ?_⟩
  · intro k hk
    rcases List.mem_append.1 hk with hk | hk
    · exact h.jobRuns k hk
    · obtain rfl := List.mem_singleton.1 hk
      exact ⟨r, hr, heq⟩
  · rw [List.map_append, List.map_singleton]
    refine h.jobs.append (List.nodup_singleton _) ?_
    intro key hmem hone
    obtain ⟨k, hk, rfl⟩ := List.mem_map.1 hmem
    exact hnew k hk (List.mem_singleton.1 hone)
  · refine List.pairwise_append.2 ⟨h.positions, List.pairwise_singleton _ j, ?_⟩
    intro k hk l hl
    obtain rfl := List.mem_singleton.1 hl
    exact hpos k hk
  · intro s hs
    obtain ⟨k, hk, hsame⟩ := h.stepJobs s hs
    exact ⟨k, List.mem_append_left _ hk, hsame⟩

/-- Some steps more, each of a job that is there. -/
theorem Sound.addSteps (h : t.Sound) {ss : List StepRow}
    (hjobs : ∀ s ∈ ss, ∃ j ∈ t.jobs, j.runId = s.runId ∧ j.jobId = s.jobId) :
    Sound { t with steps := t.steps ++ ss } := by
  refine ⟨h.runs, h.jobRuns, h.jobs, h.positions, ?_⟩
  intro s hs
  rcases List.mem_append.1 hs with hs | hs
  · exact h.stepJobs s hs
  · exact hjobs s hs

/-! ## Positions -/

/-- The greatest position of a run so far, and that of one more job. -/
def atLeast (runId : Cell) (p : Int) (j : JobRow) : Int :=
  if runId.meets j.runId then max p j.position else p

theorem le_atLeast (runId : Cell) (p : Int) (j : JobRow) : p ≤ atLeast runId p j := by
  unfold atLeast
  split <;> omega

/-- The greatest position among some jobs of a run is no less than any of theirs. -/
theorem le_foldl_atLeast {runId : Cell} {js : List JobRow} {p : Int} :
    p ≤ js.foldl (atLeast runId) p ∧
      ∀ j ∈ js, runId.meets j.runId = true → j.position ≤ js.foldl (atLeast runId) p := by
  induction js generalizing p with
  | nil => exact ⟨Int.le_refl p, fun _ h => absurd h List.not_mem_nil⟩
  | cons k js ih =>
    rw [List.foldl_cons]
    obtain ⟨hp, hall⟩ := @ih (atLeast runId p k)
    refine ⟨Int.le_trans (le_atLeast runId p k) hp, fun j hj hmeets => ?_⟩
    rcases List.mem_cons.1 hj with rfl | hj
    · have hk : j.position ≤ atLeast runId p j := by
        rw [atLeast, if_pos hmeets]
        omega
      exact Int.le_trans hk hp
    · exact hall j hj hmeets

/-- The next position of a run is after those of all its jobs. -/
theorem position_lt_nextPosition {runId : String} {j : JobRow} (hj : j ∈ t.jobs)
    (hrun : j.runId = .text runId) : j.position < t.nextPosition (.text runId) := by
  have hle : j.position ≤ t.jobs.foldl (atLeast (.text runId)) (-1) :=
    le_foldl_atLeast.2 j hj (Cell.meets_text.2 hrun)
  exact Int.lt_add_one_of_le hle

/-- Listing the jobs of a run by position is listing them as they stand, if they stand in the
order of their positions. -/
theorem jobsOf_of_positions
    (h : t.jobs.Pairwise fun a b => a.runId = b.runId → a.position < b.position) (id : Cell) :
    t.jobsOf id = t.jobs.filter fun j => id.meets j.runId := by
  refine List.mergeSort_of_pairwise ?_
  refine List.Pairwise.imp_of_mem ?_ (h.filter fun j => id.meets j.runId)
  intro a b ha hb hlt
  have harun : id = a.runId := (Cell.meets_iff.1 (List.mem_filter.1 ha).2).2
  have hbrun : id = b.runId := (Cell.meets_iff.1 (List.mem_filter.1 hb).2).2
  have hpos := hlt (harun.symm.trans hbrun)
  rw [if_pos (by omega)]
  simpa using hpos

/-- Listing the jobs of a run by position is listing them as they stand. -/
theorem jobsOf_of_sound (h : t.Sound) (id : String) :
    t.jobsOf (.text id) = t.jobs.filter fun j => (Cell.text id).meets j.runId :=
  jobsOf_of_positions h.positions (.text id)

end Tables

end Conveyor
