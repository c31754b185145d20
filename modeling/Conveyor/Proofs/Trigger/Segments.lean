import Conveyor.Trigger.Rule

/-!
# Segments of paths and patterns

What the segments of a path are, and how a pattern that starts with a given segment matches.

- `Text.flatMap_splitOn`: a text is its pieces, each with the separator after it.
- `segments_append_slash`: a slash between two paths keeps their segments apart.
- `matchSegmentsWith_stars`, `matchSegmentsWith_cons`: the first segment of a pattern stands for
  any number of segments of the path, or for one.
- `length_eq_of_matches`: without a `**`, each segment of a pattern stands for one.
-/

namespace Conveyor

namespace Text

theorem splitAt_eq_splitOn (sep : CodePoint) (cs : List CodePoint) :
    splitAt sep cs = cs.splitOn sep := by
  induction cs with
  | nil => rfl
  | cons c cs ih =>
    rw [splitAt, ih, List.splitOn_cons_eq_if_modifyHead]
    simp only [beq_iff_eq]
    cases hparts : cs.splitOn sep with
    | nil => exact absurd hparts (List.splitOn_ne_nil sep cs)
    | cons part parts => rfl

/-- A text is its pieces, each with the separator after it, but for the last separator. -/
theorem flatMap_splitOn (sep : CodePoint) (cs : List CodePoint) :
    (cs.splitOn sep).flatMap (· ++ [sep]) = cs ++ [sep] := by
  induction cs with
  | nil => rfl
  | cons c cs ih =>
    rw [List.splitOn_cons_eq_if_modifyHead]
    by_cases hc : c = sep
    · subst hc
      rw [if_pos (beq_self_eq_true c), List.flatMap_cons, ih]
      rfl
    · rw [if_neg (mt beq_iff_eq.1 hc)]
      cases hparts : cs.splitOn sep with
      | nil => exact absurd hparts (List.splitOn_ne_nil sep cs)
      | cons part parts =>
        rw [hparts, List.flatMap_cons] at ih
        rw [List.modifyHead_cons, List.flatMap_cons, List.cons_append, List.cons_append, ih,
          List.cons_append]

/-- No piece has a separator inside. -/
theorem not_mem_of_mem_splitOn {sep : CodePoint} {cs part : List CodePoint}
    (h : part ∈ cs.splitOn sep) :
    sep ∉ part := by
  induction cs generalizing part with
  | nil =>
    rw [List.splitOn_nil, List.mem_singleton] at h
    rw [h]
    exact List.not_mem_nil
  | cons c cs ih =>
    rw [List.splitOn_cons_eq_if_modifyHead] at h
    by_cases hc : c = sep
    · rw [if_pos (beq_iff_eq.2 hc), List.mem_cons] at h
      rcases h with rfl | h
      · exact List.not_mem_nil
      · exact ih h
    · rw [if_neg (mt beq_iff_eq.1 hc)] at h
      cases hparts : cs.splitOn sep with
      | nil => exact absurd hparts (List.splitOn_ne_nil sep cs)
      | cons first parts =>
        rw [hparts, List.modifyHead_cons, List.mem_cons] at h
        rw [hparts] at ih
        rcases h with rfl | h
        · rw [List.mem_cons, not_or]
          exact ⟨fun heq => hc heq.symm, ih List.mem_cons_self⟩
        · exact ih (List.mem_cons_of_mem _ h)

end Text

theorem segments_eq (path : Text) :
    segments path =
      ((path.toList.splitOn (.char '/')).map Text.ofList).filter fun part =>
        part ≠ Text.ofString "" &&
        part ≠ Text.ofString "." := by
  rw [segments, Text.splitAt_eq_splitOn]

/-- A slash between two paths keeps their segments apart. -/
theorem segments_append_slash (path more : Text) :
    segments (path ++ "/" ++ more) = segments path ++ segments more := by
  have hsplit : (path ++ "/" ++ more).toList.splitOn (.char '/') =
      path.toList.splitOn (.char '/') ++ more.toList.splitOn (.char '/') := by
    rw [Text.toList_append, Text.toList_append, List.append_assoc]
    exact List.splitOn_append_cons_self path.toList more.toList
  rw [segments_eq, segments_eq, segments_eq, hsplit, List.map_append, List.filter_append]

/-! ## Matching -/

theorem anyTail_eq_true_iff {α : Type} {k : List α → Bool} {xs : List α} :
    anyTail k xs = true ↔ ∃ tail, tail <:+ xs ∧ k tail = true := by
  induction xs with
  | nil => simp [anyTail]
  | cons x xs ih =>
    rw [anyTail, Bool.or_eq_true, ih]
    constructor
    · rintro (h | ⟨tail, htail, h⟩)
      · exact ⟨x :: xs, List.suffix_rfl, h⟩
      · exact ⟨tail, htail.trans (List.suffix_cons x xs), h⟩
    · rintro ⟨tail, htail, h⟩
      rcases List.suffix_cons_iff.1 htail with rfl | htail
      · exact .inl h
      · exact .inr ⟨tail, htail, h⟩

variable {matchOne : Text → Text → Bool} {head : Text} {rest path : List Text}

theorem matchSegmentsWith_nil : matchSegmentsWith matchOne [] path = true ↔ path = [] :=
  List.isEmpty_iff

/-- A segment `**` stands for any number of segments. -/
theorem matchSegmentsWith_stars :
    matchSegmentsWith matchOne ("**" :: rest) path = true ↔
      ∃ tail, tail <:+ path ∧ matchSegmentsWith matchOne rest tail = true := by
  have hstars : matchSegmentsWith matchOne ("**" :: rest) path =
      anyTail (matchSegmentsWith matchOne rest) path := rfl
  rw [hstars, anyTail_eq_true_iff]

/-- Any other segment stands for one. -/
theorem matchSegmentsWith_cons (h : head ≠ "**") :
    matchSegmentsWith matchOne (head :: rest) path = true ↔
      ∃ part parts, path = part :: parts ∧ matchOne part head = true ∧
        matchSegmentsWith matchOne rest parts = true := by
  cases path with
  | nil =>
    have hnone : matchSegmentsWith matchOne (head :: rest) [] = false := if_neg h
    simp [hnone]
  | cons part parts =>
    have hone : matchSegmentsWith matchOne (head :: rest) (part :: parts) =
        (matchOne part head && matchSegmentsWith matchOne rest parts) := if_neg h
    rw [hone, Bool.and_eq_true]
    constructor
    · exact fun hmatch => ⟨part, parts, rfl, hmatch⟩
    · rintro ⟨_, _, ⟨⟩, hmatch⟩
      exact hmatch

/-- Without a `**`, a pattern and the path have as many segments. -/
theorem length_eq_of_matches {wanted parts : List Text} (hstars : Text.ofString "**" ∉ wanted)
    (h : matchSegmentsWith matchOne wanted parts = true) : wanted.length = parts.length := by
  induction wanted generalizing parts with
  | nil => rw [matchSegmentsWith_nil.1 h]
  | cons head rest ih =>
    rw [List.mem_cons, not_or] at hstars
    obtain ⟨part, parts, rfl, -, hrest⟩ := (matchSegmentsWith_cons (Ne.symm hstars.1)).1 h
    rw [List.length_cons, List.length_cons, ih hstars.2 hrest]

end Conveyor
