import Conveyor.Proofs.Trigger.Segments

/-!
# The recursive policy

Under the recursive policy a pattern also excludes what is beneath a directory that it matches.
Nothing else is meant than a `**` at its end.

- `matchSegmentsWith_append_stars`: a pattern with `**` at its end matches what begins with a
  match.
- `pathMatchesWith_recursive`: so does a pattern under the recursive policy.
- `TriggerRule.excludes_of_subset`: with more patterns, or under the recursive policy, a rule
  excludes no less.
- `TriggerRule.excludes_beneath`: under the recursive policy, what is beneath an excluded path is
  excluded.
- `recursive_iff_shallow`: **the recursive policy is the shallow one with `**` at the end of each
  pattern**.
-/

namespace Conveyor

variable {matchOne : Text → Text → Bool}

/-- A pattern with `**` at its end matches what begins with a match. -/
theorem matchSegmentsWith_append_stars {wanted parts : List Text} :
    matchSegmentsWith matchOne (wanted ++ [Text.ofString "**"]) parts = true ↔
      ∃ front, front <+: parts ∧ matchSegmentsWith matchOne wanted front = true := by
  induction wanted generalizing parts with
  | nil =>
    refine ⟨fun _ => ⟨[], List.nil_prefix, rfl⟩, fun _ => ?_⟩
    exact matchSegmentsWith_stars.2 ⟨[], List.nil_suffix, rfl⟩
  | cons head rest ih =>
    rw [List.cons_append]
    by_cases hhead : head = "**"
    · subst hhead
      simp only [matchSegmentsWith_stars, ih]
      -- What the first `**` skips stands before the match in the end, too.
      constructor
      · rintro ⟨_, ⟨skipped, rfl⟩, front, ⟨back, rfl⟩, hmatch⟩
        refine ⟨skipped ++ front, ⟨back, List.append_assoc ..⟩, front,
          List.suffix_append .., hmatch⟩
      · rintro ⟨_, ⟨back, rfl⟩, front, ⟨skipped, rfl⟩, hmatch⟩
        refine ⟨front ++ back, ⟨skipped, (List.append_assoc ..).symm⟩, front,
          List.prefix_append .., hmatch⟩
    · simp only [matchSegmentsWith_cons hhead, ih]
      constructor
      · rintro ⟨part, _, rfl, hpart, front, hfront, hmatch⟩
        exact ⟨part :: front, List.cons_prefix_cons.2 ⟨rfl, hfront⟩, part, front, rfl,
          hpart, hmatch⟩
      · rintro ⟨_, ⟨back, rfl⟩, part, front, rfl, hpart, hmatch⟩
        exact ⟨part, front ++ back, rfl, hpart, front, List.prefix_append .., hmatch⟩

/-- A pattern that matches no segments at all consists of `**`, and matches any segments. -/
theorem matchSegmentsWith_of_matches_nil {wanted : List Text} (hwanted : wanted ≠ [])
    (h : matchSegmentsWith matchOne wanted [] = true) (parts : List Text) :
    matchSegmentsWith matchOne wanted parts = true := by
  cases wanted with
  | nil => exact absurd rfl hwanted
  | cons head rest =>
    by_cases hhead : head = "**"
    · subst hhead
      obtain ⟨tail, htail, hmatch⟩ := matchSegmentsWith_stars.1 h
      obtain rfl := List.suffix_nil.1 htail
      exact matchSegmentsWith_stars.2 ⟨[], List.nil_suffix, hmatch⟩
    · obtain ⟨part, parts', hnil, -⟩ := (matchSegmentsWith_cons hhead).1 h
      cases hnil

/-- What a pattern with some segment matches under the recursive policy. -/
theorem pathMatchesWith_recursive {path pattern : Text} (hpattern : segments pattern ≠ []) :
    pathMatchesWith matchOne path pattern .recursive = true ↔
      ∃ front, front <+: segments path ∧ matchSegmentsWith matchOne (segments pattern) front =
      true := by
  simp only [pathMatchesWith, Bool.or_eq_true, List.any_eq_true, List.mem_range,
      Bool.and_eq_true,
    bne_iff_ne]
  constructor
  · rintro (h | ⟨depth, -, -, h⟩)
    · exact ⟨_, List.prefix_rfl, h⟩
    · exact ⟨_, List.take_prefix depth _, h⟩
  · rintro ⟨front, hfront, h⟩
    by_cases hne : front = []
    · subst hne
      exact .inl (matchSegmentsWith_of_matches_nil hpattern h _)
    · rcases Nat.lt_or_ge front.length (segments path).length with hlt | hge
      · refine .inr ⟨front.length, hlt, mt List.length_eq_zero_iff.1 hne, ?_⟩
        rwa [← List.prefix_iff_eq_take.1 hfront]
      · rw [hfront.eq_of_length_le hge] at h
        exact .inl h

theorem pathMatchesWith_shallow {path pattern : Text} :
    pathMatchesWith matchOne path pattern .shallow = true ↔
      matchSegmentsWith matchOne (segments pattern) (segments path) = true := by
  simp only [pathMatchesWith, Bool.or_false]

/-- A pattern without any segment matches no path that has some. -/
theorem segments_eq_nil_of_matches {path pattern : Text} {policy : PathPolicy}
    (hpattern : segments pattern = []) (h : pathMatchesWith matchOne path pattern policy =
        true) :
    segments path = [] := by
  simp only [pathMatchesWith, hpattern, Bool.or_eq_true, matchSegmentsWith_nil] at h
  rcases h with h | h
  · exact h
  · cases policy with
    | shallow => cases h
    | recursive =>
      simp only [List.any_eq_true, List.mem_range, Bool.and_eq_true, bne_iff_ne,
        matchSegmentsWith_nil] at h
      obtain ⟨depth, -, hdepth, hnil⟩ := h
      exact (List.take_eq_nil_iff.1 hnil).resolve_left hdepth

/-! ## Rules -/

namespace TriggerRule

/-- Excluding more never starts a run. -/
theorem triggers_eq_false {rule rule' : TriggerRule} {branch : Text} {paths : List Text}
    (hbranches : rule'.branches = rule.branches)
    (hexcludes : ∀ path ∈ paths, rule.excludes path = true → rule'.excludes path = true)
    (h : rule.triggers branch paths = false) : rule'.triggers branch paths = false := by
  unfold triggers at h ⊢
  rw [hbranches]
  rw [Bool.and_eq_false_iff, Bool.or_eq_false_iff, List.any_eq_false] at h ⊢
  refine h.imp_right fun ⟨hsome, hall⟩ => ⟨hsome, fun path hpath => ?_⟩
  have hexcluded : rule.excludes path = true := by simpa using hall path hpath
  simpa using hexcludes path hpath hexcluded

/-- A rule excludes no less with more patterns, or under the recursive policy. -/
theorem excludes_of_subset {rule rule' : TriggerRule}
    (hpaths : rule.excludedPaths ⊆ rule'.excludedPaths)
    (hpolicy : rule.policy = .shallow ∨ rule'.policy = .recursive) {path : Text}
    (h : rule.excludes path = true) : rule'.excludes path = true := by
  unfold excludes at h ⊢
  rw [List.any_eq_true] at h ⊢
  obtain ⟨pattern, hpattern, hmatch⟩ := h
  refine ⟨pattern, hpaths hpattern, ?_⟩
  unfold pathMatches at hmatch ⊢
  cases hp : rule'.policy with
  | shallow =>
    rw [hp] at hpolicy
    rwa [hpolicy.resolve_right PathPolicy.noConfusion] at hmatch
  | recursive =>
    cases hp' : rule.policy with
    | recursive => rwa [hp'] at hmatch
    | shallow =>
      rw [hp'] at hmatch
      unfold pathMatchesWith
      rw [Bool.or_eq_true]
      exact .inl (pathMatchesWith_shallow.1 hmatch)

/-- Under the recursive policy, what is beneath an excluded path is excluded. -/
theorem excludes_beneath {rule : TriggerRule} (hpolicy : rule.policy = .recursive)
    {path : Text}
    (hpath : segments path ≠ []) (h : rule.excludes path = true) (more : Text) :
    rule.excludes (path ++ "/" ++ more) = true := by
  unfold excludes at h ⊢
  rw [List.any_eq_true] at h ⊢
  obtain ⟨pattern, hmem, hmatch⟩ := h
  refine ⟨pattern, hmem, ?_⟩
  unfold pathMatches at hmatch ⊢
  have hpattern : segments pattern ≠ [] :=
    fun hnone => hpath (segments_eq_nil_of_matches hnone hmatch)
  rw [hpolicy] at hmatch ⊢
  obtain ⟨front, hfront, hmatch⟩ := (pathMatchesWith_recursive hpattern).1 hmatch
  refine (pathMatchesWith_recursive hpattern).2 ⟨front, ?_, hmatch⟩
  rw [segments_append_slash]
  exact hfront.trans (List.prefix_append _ _)

end TriggerRule

/-- **The recursive policy is the shallow one, with `**` at the end of every pattern.** This
holds for any way to match one segment. So the recursive policy, like further patterns, lets no
change start a run that did not, and what is beneath an excluded path is excluded, too. -/
theorem recursive_iff_shallow :
    (∀ (matchOne : Text → Text → Bool) (path pattern : Text), segments pattern ≠ [] →
      pathMatchesWith matchOne path pattern .recursive =
        pathMatchesWith matchOne path (pattern ++ "/**") .shallow) ∧
    (∀ (rule rule' : TriggerRule) (branch : Text) (paths : List Text), rule'.branches =
        rule.branches →
      rule.excludedPaths ⊆ rule'.excludedPaths →
      (rule.policy = .shallow ∨ rule'.policy = .recursive) →
      rule.triggers branch paths = false → rule'.triggers branch paths = false) ∧
    ∀ (rule : TriggerRule) (path more : Text), rule.policy = .recursive → segments path ≠ [] →
      rule.excludes path = true → rule.excludes (path ++ "/" ++ more) = true := by
  refine ⟨fun matchOne path pattern hpattern => ?_, ?_, ?_⟩
  · have hsegments : segments (pattern ++ "/**") = segments pattern ++ [Text.ofString "**"] := by
      have hstars : segments "**" = [Text.ofString "**"] := by decide +kernel
      have h := segments_append_slash pattern "**"
      rwa [hstars, Text.append_assoc] at h
    rw [Bool.eq_iff_iff, pathMatchesWith_recursive hpattern, pathMatchesWith_shallow, hsegments,
      matchSegmentsWith_append_stars]
  · intro rule rule' branch paths hbranches hpaths hpolicy
    exact TriggerRule.triggers_eq_false hbranches fun path _ =>
      TriggerRule.excludes_of_subset hpaths hpolicy
  · intro rule path more hpolicy hpath h
    exact TriggerRule.excludes_beneath hpolicy hpath h more

/-- A rule that leaves the documentation alone. -/
def withoutDocs (policy : PathPolicy) : TriggerRule := ⟨["main"], ["docs/*", "*.md"], policy⟩

/-- What is beneath a file of the documentation is a match of the longer pattern, and stays
excluded. -/
theorem recursive_iff_shallow_docs :
    (segments "docs/*" ≠ [] ∧ pathMatches "docs/api/index.html" "docs/*" .recursive = true ∧
      pathMatches "docs/api/index.html" ("docs/*" ++ "/**") .shallow = true) ∧
    ((withoutDocs .shallow).triggers "main" ["docs/api"] = false ∧
      (withoutDocs .recursive).triggers "main" ["docs/api"] = false) ∧
    segments "docs/api" ≠ [] ∧ (withoutDocs .recursive).excludes "docs/api" = true ∧
      (withoutDocs .recursive).excludes ("docs/api" ++ "/" ++ "index.html") = true := by
  have hpattern : segments "docs/*" ≠ [] := by decide +kernel
  have hmatch : pathMatches "docs/api/index.html" "docs/*" .recursive = true := by decide +kernel
  have hkept : (withoutDocs .shallow).triggers "main" ["docs/api"] = false := by decide +kernel
  have hpath : segments "docs/api" ≠ [] := by decide +kernel
  have hexcluded : (withoutDocs .recursive).excludes "docs/api" = true := by decide +kernel
  obtain ⟨hreduces, hrejects, hbeneath⟩ := recursive_iff_shallow
  refine ⟨⟨hpattern, hmatch, ?_⟩, ⟨hkept, ?_⟩, hpath, hexcluded, ?_⟩
  · exact (hreduces Wildcard.matchesSegment "docs/api/index.html" "docs/*" hpattern).symm.trans
      hmatch
  · exact hrejects (withoutDocs .shallow) (withoutDocs .recursive) _ _ rfl (List.Subset.refl _)
      (.inl rfl) hkept
  · exact hbeneath _ _ "index.html" rfl hpath hexcluded

end Conveyor
