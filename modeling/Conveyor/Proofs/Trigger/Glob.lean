import Conveyor.Proofs.Trigger.Segments
import Mathlib.Computability.Language

/-!
# Patterns as languages

A pattern stands for a language of paths, where each segment of a path is written with a slash
after it. A segment `**` of the pattern stands for any number of segments, and any other segment
for one, in which `*` stands for any characters but slashes, `?` for one of them, and every other
character for itself.

- `Glob.ofSegment`, `Glob.language`: the languages of a segment and of a pattern.
- `Glob.matchesSegment_iff`: a segment is matched if it is what the segment of the pattern stands
  for.
- `Glob.mem_prod_iff`: a path is matched if it is in the language of the pattern's segments.
- `Glob.Alike`: segments that stand for the same.
- `pathMatches_shallow_language`: **a pattern without brackets matches the paths of its
  language**.
-/

namespace Conveyor

open scoped Computability

namespace Glob

/-- One character that is no slash. -/
def inner : Language CodePoint := {cs | ∃ c, c ≠ CodePoint.char '/' ∧ cs = [c]}

/-- A slash. -/
def slash : Language CodePoint := {[.char '/']}

/-- What a character of a segment stands for. -/
def ofChar (c : CodePoint) : Language CodePoint :=
  if c = '*' then inner∗ else if c = '?' then inner else {[c]}

/-- What a segment of a pattern stands for, with the slash after it. -/
def ofSegment (segment : List CodePoint) : Language CodePoint :=
  if segment = [.char '*', .char '*'] then (inner * inner∗ * slash)∗
  else (segment.map ofChar).prod * slash

/-- The segments of a pattern. -/
def segmentsOf (pattern : Text) : List (List CodePoint) :=
  (pattern.toList.splitOn (.char '/')).filter (· ≠ [])

/-- What a pattern stands for. -/
def language (pattern : Text) : Language CodePoint := ((segmentsOf pattern).map ofSegment).prod

/-! ## One segment -/

theorem mem_inner {cs : List CodePoint} : cs ∈ inner ↔ ∃ c, c ≠ CodePoint.char '/' ∧ cs = [c] :=
  Iff.rfl

theorem mem_kstar_inner {cs : List CodePoint} : cs ∈ inner∗ ↔ CodePoint.char '/' ∉ cs := by
  constructor
  · intro h
    obtain ⟨parts, rfl, hparts⟩ := Language.mem_kstar.1 h
    rw [List.mem_flatten]
    rintro ⟨part, hpart, hslash⟩
    obtain ⟨c, hc, rfl⟩ := hparts part hpart
    exact hc (List.mem_singleton.1 hslash).symm
  · intro h
    refine Language.mem_kstar.2 ⟨cs.map fun c => [c], ?_, fun part hpart => ?_⟩
    · rw [← List.flatMap_def, List.flatMap_singleton']
    · obtain ⟨c, hc, rfl⟩ := List.mem_map.1 hpart
      exact ⟨c, fun heq => h (heq ▸ hc), rfl⟩

theorem mem_inner_mul_kstar {cs : List CodePoint} :
    cs ∈ inner * inner∗ ↔ cs ≠ [] ∧ CodePoint.char '/' ∉ cs := by
  rw [Language.mem_mul]
  constructor
  · rintro ⟨_, ⟨c, hc, rfl⟩, rest, hrest, rfl⟩
    refine ⟨List.cons_ne_nil _ _, ?_⟩
    rw [List.mem_append, List.mem_singleton, not_or]
    exact ⟨hc.symm, mem_kstar_inner.1 hrest⟩
  · rintro ⟨hne, hslash⟩
    obtain ⟨c, rest, rfl⟩ := List.exists_cons_of_ne_nil hne
    rw [List.mem_cons, not_or] at hslash
    exact ⟨[c], ⟨c, hslash.1 ∘ Eq.symm, rfl⟩, rest, mem_kstar_inner.2 hslash.2, rfl⟩

/-- The item for a character outside brackets. -/
def itemOf (c : CodePoint) : Wildcard.Item :=
  if c = '*' then .star else if c = '?' then .any else .lit c

theorem compile_eq {pattern : List CodePoint} (h : CodePoint.char '[' ∉ pattern) :
    Wildcard.compile pattern = pattern.map itemOf := by
  unfold Wildcard.compile
  induction pattern with
  | nil => rfl
  | cons c rest ih =>
    rw [List.mem_cons, not_or] at h
    rw [List.length_cons, List.map_cons, ← ih h.2]
    by_cases hstar : c = '*'
    · subst hstar
      rfl
    · by_cases hany : c = '?'
      · subst hany
        rfl
      · have hbracket : c ≠ '[' := fun heq => h.1 heq.symm
        rw [Wildcard.compileWith, itemOf, if_neg hstar, if_neg hany] <;> assumption

theorem onSomeSuffix_eq_anyTail (k : List CodePoint → Bool) (cs : List CodePoint) :
    Wildcard.onSomeSuffix k cs = anyTail k cs := by
  induction cs with
  | nil => rfl
  | cons c cs ih => rw [Wildcard.onSomeSuffix, anyTail, ih]

/-- A character that is no `*` stands for one character. -/
theorem mem_ofChar {c : CodePoint} (hstar : c ≠ '*') {cs : List CodePoint} :
    cs ∈ ofChar c ↔ ∃ d, cs = [d] ∧ (if c = '?' then d ≠ '/' else d = c) := by
  rw [ofChar, if_neg hstar]
  by_cases hany : c = '?'
  · simp only [if_pos hany, mem_inner, and_comm]
  · simp only [if_neg hany]
    constructor
    · rintro rfl
      exact ⟨c, rfl, rfl⟩
    · rintro ⟨d, rfl, rfl⟩
      exact rfl

theorem accepts_itemOf {c : CodePoint} (hstar : c ≠ '*') (items : List Wildcard.Item)
    {cs : List CodePoint}
    (hcs : CodePoint.char '/' ∉ cs) :
    Wildcard.accepts (itemOf c :: items) cs = true ↔
      ∃ d rest, cs = d :: rest ∧ [d] ∈ ofChar c ∧ Wildcard.accepts items rest = true := by
  simp only [mem_ofChar hstar]
  rw [itemOf, if_neg hstar]
  cases cs with
  | nil => split <;> simp [Wildcard.accepts]
  | cons d rest =>
    have hd : d ≠ '/' := fun heq => hcs (heq ▸ List.mem_cons_self)
    split <;> simp [Wildcard.accepts, Wildcard.Item.admits, hd]

/-- A segment of a path is matched if it is what the segment of the pattern stands for. -/
theorem accepts_iff {segment part : List CodePoint} (hpart : CodePoint.char '/' ∉ part) :
    Wildcard.accepts (segment.map itemOf) part = true ↔ part ∈ (segment.map ofChar).prod := by
  -- On the pattern: a star takes any front of the part, every other item one character.
  induction segment generalizing part with
  | nil =>
    rw [List.map_nil, List.map_nil, List.prod_nil, Language.mem_one]
    exact List.isEmpty_iff
  | cons c segment ih =>
    rw [List.map_cons, List.map_cons, List.prod_cons, Language.mem_mul]
    by_cases hstar : c = '*'
    · rw [itemOf, ofChar, if_pos hstar, if_pos hstar, Wildcard.accepts, onSomeSuffix_eq_anyTail,
        anyTail_eq_true_iff]
      constructor
      · rintro ⟨tail, ⟨front, rfl⟩, h⟩
        rw [List.mem_append, not_or] at hpart
        exact ⟨front, mem_kstar_inner.2 hpart.1, tail, (ih hpart.2).1 h, rfl⟩
      · rintro ⟨front, -, tail, h, rfl⟩
        rw [List.mem_append, not_or] at hpart
        exact ⟨tail, List.suffix_append _ _, (ih hpart.2).2 h⟩
    · rw [accepts_itemOf hstar _ hpart]
      constructor
      · rintro ⟨d, rest, rfl, hd, h⟩
        rw [List.mem_cons, not_or] at hpart
        exact ⟨[d], hd, rest, (ih hpart.2).1 h, rfl⟩
      · rintro ⟨front, hfront, rest, h, rfl⟩
        obtain ⟨d, rfl, -⟩ := (mem_ofChar hstar).1 hfront
        rw [List.singleton_append, List.mem_cons, not_or] at hpart
        exact ⟨d, rest, rfl, hfront, (ih hpart.2).2 h⟩

theorem matchesSegment_iff {segment part : List CodePoint}
    (hbrackets : CodePoint.char '[' ∉ segment)
    (hpart : CodePoint.char '/' ∉ part) :
    Wildcard.matchesSegment (Text.ofList part) (Text.ofList segment) = true ↔
      part ∈ (segment.map ofChar).prod := by
  rw [Wildcard.matchesSegment, Text.toList_ofList, Text.toList_ofList, compile_eq hbrackets,
    accepts_iff hpart]

/-- Nothing that a segment stands for has a slash inside. -/
theorem not_mem_of_mem_prod {segment cs : List CodePoint}
    (hsegment : CodePoint.char '/' ∉ segment)
    (h : cs ∈ (segment.map ofChar).prod) : CodePoint.char '/' ∉ cs := by
  induction segment generalizing cs with
  | nil =>
    rw [List.map_nil, List.prod_nil, Language.mem_one] at h
    rw [h]
    exact List.not_mem_nil
  | cons c segment ih =>
    rw [List.map_cons, List.prod_cons, Language.mem_mul] at h
    obtain ⟨front, hfront, rest, hrest, rfl⟩ := h
    rw [List.mem_cons, not_or] at hsegment
    rw [List.mem_append, not_or]
    refine ⟨?_, ih hsegment.2 hrest⟩
    by_cases hstar : c = '*'
    · rw [ofChar, if_pos hstar] at hfront
      exact mem_kstar_inner.1 hfront
    · obtain ⟨d, rfl, hd⟩ := (mem_ofChar hstar).1 hfront
      rw [List.mem_singleton]
      split at hd
      · exact hd.symm
      · exact hd ▸ hsegment.1

/-! ## Paths -/

/-- Some segments, each with a slash after it. -/
def written (parts : List (List CodePoint)) : List CodePoint := parts.flatMap (· ++ [.char '/'])

theorem written_cons (part : List CodePoint) (parts : List (List CodePoint)) :
    written (part :: parts) = part ++ .char '/' :: written parts := by
  rw [written, List.flatMap_cons, List.append_assoc]
  rfl

theorem written_append (parts parts' : List (List CodePoint)) :
    written (parts ++ parts') = written parts ++ written parts' := List.flatMap_append ..

/-- The first slash ends the first segment. -/
theorem append_slash_inj {part part' rest rest' : List CodePoint} (h : CodePoint.char '/' ∉ part)
    (h' : CodePoint.char '/' ∉ part')
    (heq : part ++ .char '/' :: rest = part' ++ .char '/' :: rest') :
    part = part' ∧ rest = rest' := by
  induction part generalizing part' with
  | nil =>
    cases part' with
    | nil => exact ⟨rfl, (List.cons.inj heq).2⟩
    | cons c part' => exact absurd ((List.cons.inj heq).1 ▸ List.mem_cons_self) h'
  | cons c part ih =>
    cases part' with
    | nil => exact absurd ((List.cons.inj heq).1 ▸ List.mem_cons_self) h
    | cons d part' =>
      obtain ⟨rfl, htail⟩ := List.cons.inj heq
      rw [List.mem_cons, not_or] at h h'
      obtain ⟨rfl, hrest⟩ := ih h.2 h'.2 htail
      exact ⟨rfl, hrest⟩

/-- What starts a written path and ends in a slash is some of its segments. -/
theorem exists_of_written_append {front parts : List (List CodePoint)} {rest : List CodePoint}
    (hfront : ∀ part ∈ front, CodePoint.char '/' ∉ part)
    (hparts : ∀ part ∈ parts, CodePoint.char '/' ∉ part)
    (h : written front ++ rest = written parts) :
    ∃ tail, parts = front ++ tail ∧ rest = written tail := by
  induction front generalizing parts with
  | nil => exact ⟨parts, rfl, h⟩
  | cons part front ih =>
    rw [written_cons, List.append_assoc, List.cons_append] at h
    cases parts with
    | nil => simp [written] at h
    | cons part' parts =>
      rw [written_cons] at h
      rw [List.forall_mem_cons] at hfront hparts
      obtain ⟨rfl, hnext⟩ := append_slash_inj hfront.1 hparts.1 h
      obtain ⟨tail, rfl, hrest⟩ := ih hfront.2 hparts.2 hnext
      exact ⟨tail, rfl, hrest⟩

/-- A segment `**` stands for any number of segments. -/
theorem mem_kstar_segments {cs : List CodePoint} :
    cs ∈ (inner * inner∗ * slash)∗ ↔
      ∃ parts, cs = written parts ∧ ∀ part ∈ parts, part ≠ [] ∧ CodePoint.char '/' ∉ part := by
  rw [Language.mem_kstar]
  constructor
  · rintro ⟨pieces, rfl, hpieces⟩
    induction pieces with
    | nil => exact ⟨[], rfl, by simp⟩
    | cons piece pieces ih =>
      rw [List.forall_mem_cons] at hpieces
      obtain ⟨parts, hwritten, hparts⟩ := ih hpieces.2
      obtain ⟨part, hpart, _, rfl, rfl⟩ := Language.mem_mul.1 hpieces.1
      refine ⟨part :: parts, ?_, ?_⟩
      · rw [List.flatten_cons, hwritten, written_cons, List.append_assoc]
        rfl
      · exact List.forall_mem_cons.2 ⟨mem_inner_mul_kstar.1 hpart, hparts⟩
  · rintro ⟨parts, rfl, hparts⟩
    refine ⟨parts.map (· ++ [CodePoint.char '/']), List.flatMap_def .., fun piece hpiece => ?_⟩
    obtain ⟨part, hpart, rfl⟩ := List.mem_map.1 hpiece
    exact Language.append_mem_mul (mem_inner_mul_kstar.2 (hparts part hpart)) rfl

/-- After a segment `**`, an end of the path remains. -/
theorem written_mem_stars_mul {parts : List (List CodePoint)}
    (hparts : ∀ part ∈ parts, part ≠ [] ∧
    CodePoint.char '/' ∉ part)
    {rest : Language CodePoint} :
    written parts ∈ (inner * inner∗ * slash)∗ * rest ↔ ∃ tail, tail <:+ parts ∧
    written tail ∈ rest := by
  rw [Language.mem_mul]
  constructor
  · rintro ⟨_, hskipped, cs, hcs, heq⟩
    obtain ⟨front, rfl, hfront⟩ := mem_kstar_segments.1 hskipped
    obtain ⟨tail, rfl, rfl⟩ := exists_of_written_append (fun part hpart => (hfront part hpart).2)
      (fun part hpart => (hparts part hpart).2) heq
    exact ⟨tail, List.suffix_append _ _, hcs⟩
  · rintro ⟨tail, ⟨front, rfl⟩, h⟩
    rw [List.forall_mem_append] at hparts
    have hfront : written front ∈ (inner * inner∗ * slash)∗ :=
      mem_kstar_segments.2 ⟨front, rfl, hparts.1⟩
    exact ⟨written front, hfront, written tail, h, (written_append front tail).symm⟩

/-- After any other segment, all but the first segment of the path remain. -/
theorem written_mem_segment_mul {segment : List CodePoint}
    (hsegment : CodePoint.char '/' ∉ segment)
    {parts : List (List CodePoint)}
    (hparts : ∀ part ∈ parts, CodePoint.char '/' ∉ part) {rest : Language CodePoint} :
    written parts ∈ (segment.map ofChar).prod * slash * rest ↔
      ∃ part tail, parts = part :: tail ∧ part ∈ (segment.map ofChar).prod ∧
      written tail ∈ rest := by
  rw [Language.mem_mul]
  constructor
  · rintro ⟨_, hfirst, cs, hcs, heq⟩
    obtain ⟨part, hpart, _, rfl, rfl⟩ := Language.mem_mul.1 hfirst
    have hinner : ∀ p ∈ [part], CodePoint.char '/' ∉ p :=
      List.forall_mem_singleton.2 (not_mem_of_mem_prod hsegment hpart)
    have hwritten : written [part] ++ cs = written parts := by
      rw [← heq, written_cons, List.append_assoc, List.append_assoc]
      rfl
    obtain ⟨tail, rfl, rfl⟩ := exists_of_written_append hinner hparts hwritten
    exact ⟨part, tail, rfl, hpart, hcs⟩
  · rintro ⟨part, tail, rfl, hpart, h⟩
    refine ⟨part ++ [CodePoint.char '/'], Language.append_mem_mul hpart rfl, written tail, h, ?_⟩
    rw [written_cons, List.append_assoc]
    rfl

/-- **A path is matched if it is what the segments of the pattern stand for**, one after the
other. -/
theorem mem_prod_iff {wanted parts : List (List CodePoint)}
    (hwanted : ∀ segment ∈ wanted, CodePoint.char '[' ∉ segment ∧ CodePoint.char '/' ∉ segment)
    (hparts : ∀ part ∈ parts, part ≠ [] ∧ CodePoint.char '/' ∉ part) :
    matchSegmentsWith Wildcard.matchesSegment (wanted.map Text.ofList)
      (parts.map Text.ofList) = true ↔
      written parts ∈ (wanted.map ofSegment).prod := by
  induction wanted generalizing parts with
  | nil =>
    rw [List.map_nil, List.map_nil, List.prod_nil, Language.mem_one, matchSegmentsWith_nil,
      List.map_eq_nil_iff]
    cases parts with
    | nil => simp [written]
    | cons part parts => simp [written_cons]
  | cons segment wanted ih =>
    rw [List.forall_mem_cons] at hwanted
    rw [List.map_cons, List.map_cons, List.prod_cons, ofSegment]
    have htail {tail : List (List CodePoint)} (h : tail <:+ parts) :
        matchSegmentsWith Wildcard.matchesSegment (wanted.map Text.ofList)
            (tail.map Text.ofList) = true ↔
          written tail ∈ (wanted.map ofSegment).prod :=
      ih hwanted.2 fun part hpart => hparts part (h.subset hpart)
    by_cases hstars : segment = [.char '*', .char '*']
    · have hhead : Text.ofList [.char '*', .char '*'] = "**" := rfl
      rw [if_pos hstars, hstars, hhead, matchSegmentsWith_stars, written_mem_stars_mul hparts]
      constructor
      · rintro ⟨_, hmap, h⟩
        obtain ⟨tail, hsuffix, rfl⟩ := List.suffix_map_iff.1 hmap
        exact ⟨tail, hsuffix, (htail hsuffix).1 h⟩
      · rintro ⟨tail, hsuffix, h⟩
        exact ⟨tail.map Text.ofList, hsuffix.map _, (htail hsuffix).2 h⟩
    · have hhead : Text.ofList segment ≠ "**" := fun heq =>
        hstars (Text.ofList.inj (heq.trans rfl))
      rw [if_neg hstars, matchSegmentsWith_cons hhead,
        written_mem_segment_mul hwanted.1.2 fun part hpart => (hparts part hpart).2]
      constructor
      · rintro ⟨_, _, heq, hpart, h⟩
        obtain ⟨part, tail, rfl, rfl, rfl⟩ := List.map_eq_cons_iff.1 heq
        have hslash := (hparts part List.mem_cons_self).2
        exact ⟨part, tail, rfl, (matchesSegment_iff hwanted.1.1 hslash).1 hpart,
          (htail (List.suffix_cons part tail)).1 h⟩
      · rintro ⟨part, tail, rfl, hpart, h⟩
        have hslash := (hparts part List.mem_cons_self).2
        exact ⟨Text.ofList part, tail.map Text.ofList, rfl,
          (matchesSegment_iff hwanted.1.1 hslash).2 hpart,
          (htail (List.suffix_cons part tail)).2 h⟩

/-! ## Patterns -/

theorem ofList_ne {cs ds : List CodePoint} : Text.ofList cs ≠ Text.ofList ds ↔ cs ≠ ds :=
  not_congr ⟨Text.ofList.inj, congrArg Text.ofList⟩

/-- The segments of a pattern, if it has none that stands for the directory itself. -/
theorem segments_eq_map {pattern : Text} (hdots : [.char '.'] ∉ segmentsOf pattern) :
    segments pattern = (segmentsOf pattern).map Text.ofList := by
  rw [segments_eq, List.filter_map]
  refine congrArg _ (List.filter_congr fun part hpart => ?_)
  have hdot : part ≠ [] → part ≠ [.char '.'] := fun hne heq =>
    hdots (List.mem_filter.2 ⟨heq ▸ hpart, by simp⟩)
  rw [Bool.eq_iff_iff]
  simp only [Function.comp_apply, Bool.and_eq_true, decide_eq_true_eq]
  exact ⟨fun h => ofList_ne.1 h.1, fun hne => ⟨ofList_ne.2 hne, ofList_ne.2 (hdot hne)⟩⟩

/-- The segments of a path that is written without empty segments and without `.`. -/
theorem segments_eq_splitOn {path : Text}
    (hpath : ∀ part ∈ path.toList.splitOn (.char '/'), part ≠ [] ∧ part ≠ [.char '.']) :
    segments path = (path.toList.splitOn (.char '/')).map Text.ofList := by
  have hall : segmentsOf path = path.toList.splitOn (.char '/') :=
    List.filter_eq_self.2 fun part hpart => decide_eq_true (hpath part hpart).1
  rw [segments_eq_map (fun hdot => (hpath _ (hall ▸ hdot)).2 rfl), hall]

theorem not_mem_of_mem_segmentsOf {pattern : Text} {segment : List CodePoint}
    (h : segment ∈ segmentsOf pattern) {c : CodePoint} (hc : c = '/' ∨ c ∉ pattern.toList) :
    c ∉ segment := by
  have hmem := (List.mem_filter.1 h).1
  have hslash := Text.not_mem_of_mem_splitOn hmem
  rcases hc with rfl | hc
  · exact hslash
  · intro hin
    have hwritten : c ∈ pattern.toList ++ [.char '/'] := by
      rw [← Text.flatMap_splitOn, List.mem_flatMap]
      exact ⟨segment, hmem, List.mem_append_left _ hin⟩
    rw [List.mem_append, List.mem_singleton] at hwritten
    exact hslash ((hwritten.resolve_left hc) ▸ hin)

/-- The same segment, but for two stars in a longer one that count as one. -/
inductive Alike : List CodePoint → List CodePoint → Prop
  | same (segment : List CodePoint) : Alike segment segment
  | stars {front back : List CodePoint} (longer : front ++ back ≠ []) (single : front ++ back ≠
      [.char '*']) :
      Alike (front ++ .char '*' :: .char '*' :: back) (front ++ .char '*' :: back)

namespace Alike

variable {segment segment' : List CodePoint}

theorem ofSegment_eq (h : Alike segment segment') : ofSegment segment' = ofSegment segment := by
  cases h with
  | same => rfl
  | @stars front back longer single =>
    have hlong : front ++ .char '*' :: .char '*' :: back ≠ [.char '*', .char '*'] := by
      intro heq
      have hlength := congrArg List.length heq
      simp only [List.length_append, List.length_cons, List.length_nil] at hlength
      exact longer (List.length_eq_zero_iff.1 (by rw [List.length_append]; omega))
    have hlong' : front ++ .char '*' :: back ≠ [.char '*', .char '*'] := by
      intro heq
      have hperm : (front ++ back).Perm [.char '*'] := by
        have h : (.char '*' :: (front ++ back)).Perm (front ++ .char '*' :: back) :=
          List.perm_middle.symm
        rw [heq] at h
        exact h.cons_inv
      exact single (List.perm_singleton.1 hperm)
    have hstar : ofChar '*' = inner∗ := if_pos rfl
    rw [ofSegment, if_neg hlong', ofSegment, if_neg hlong]
    simp only [List.map_append, List.map_cons, List.prod_append, List.prod_cons, hstar]
    rw [← mul_assoc inner∗ inner∗, kstar_mul_kstar]

theorem eq_or_mem (h : Alike segment segment') :
    segment' = segment ∨ CodePoint.char '*' ∈ segment' := by
  cases h with
  | same => exact .inl rfl
  | stars => exact .inr (List.mem_append_right _ List.mem_cons_self)

theorem mem (h : Alike segment segment') {c : CodePoint} (hc : c ∈ segment') : c ∈ segment := by
  cases h with
  | same => exact hc
  | stars =>
    rw [List.mem_append] at hc ⊢
    exact hc.imp_right (List.mem_cons_of_mem _)

/-- Patterns with alike segments have the same language, and the same characters are kept out of
them. -/
theorem forall₂ {wanted wanted' : List (List CodePoint)} (h : List.Forall₂ Alike wanted wanted')
    (hbrackets : ∀ segment ∈ wanted, CodePoint.char '[' ∉ segment)
    (hdots : [.char '.'] ∉ wanted) :
    wanted'.map ofSegment = wanted.map ofSegment ∧
      (∀ segment ∈ wanted', CodePoint.char '[' ∉ segment) ∧
      [.char '.'] ∉ wanted' := by
  induction h with
  | nil => exact ⟨rfl, hbrackets, hdots⟩
  | @cons segment segment' wanted wanted' halike _ ih =>
    rw [List.forall_mem_cons] at hbrackets
    rw [List.mem_cons, not_or] at hdots
    obtain ⟨hmap, hbrackets', hdots'⟩ := ih hbrackets.2 hdots.2
    refine ⟨?_, List.forall_mem_cons.2 ⟨mt halike.mem hbrackets.1, hbrackets'⟩, ?_⟩
    · rw [List.map_cons, List.map_cons, halike.ofSegment_eq, hmap]
    · rw [List.mem_cons, not_or]
      refine ⟨fun heq => ?_, hdots'⟩
      rcases halike.eq_or_mem with hsame | hstar
      · exact hdots.1 (heq.trans hsame)
      · rw [← heq] at hstar
        exact absurd hstar (by decide)

end Alike

/-- A pattern matches the paths of its language, if its segments are without brackets. -/
theorem pathMatches_iff {path pattern : Text}
    (hpath : ∀ part ∈ path.toList.splitOn (.char '/'), part ≠ [] ∧ part ≠ [.char '.'])
    (hbrackets : ∀ segment ∈ segmentsOf pattern, CodePoint.char '[' ∉ segment)
    (hdots : [.char '.'] ∉ segmentsOf pattern) :
    pathMatches path pattern .shallow = true ↔
      path.toList ++ [.char '/'] ∈ language pattern := by
  have hwanted : ∀ segment ∈ segmentsOf pattern, CodePoint.char '[' ∉ segment ∧
      CodePoint.char '/' ∉ segment :=
      fun segment h =>
    ⟨hbrackets segment h, not_mem_of_mem_segmentsOf h (.inl rfl)⟩
  have hparts : ∀ part ∈ path.toList.splitOn (.char '/'), part ≠ [] ∧
      CodePoint.char '/' ∉ part := fun part h =>
    ⟨(hpath part h).1, Text.not_mem_of_mem_splitOn h⟩
  rw [language, ← Text.flatMap_splitOn, pathMatches, pathMatchesWith, segments_eq_map hdots,
    segments_eq_splitOn hpath, Bool.or_false]
  exact mem_prod_iff hwanted hparts

end Glob

open Glob

/-- **A pattern without brackets matches the paths of its language.** So without a `**` it
matches only paths of as many segments, two stars in a longer segment count as one, and slashes
count only between segments. -/
theorem pathMatches_shallow_language {path pattern : Text}
    (hpath : ∀ part ∈ path.toList.splitOn (.char '/'), part ≠ [] ∧ part ≠ [.char '.'])
    (hbrackets : CodePoint.char '[' ∉ pattern.toList)
    (hdots : [.char '.'] ∉ segmentsOf pattern) :
    (pathMatches path pattern .shallow = true ↔ path.toList ++ [.char '/'] ∈ language pattern) ∧
    ([.char '*', .char '*'] ∉ segmentsOf pattern → pathMatches path pattern .shallow = true →
      (segmentsOf pattern).length = (path.toList.splitOn (.char '/')).length) ∧
    ∀ pattern', List.Forall₂ Alike (segmentsOf pattern) (segmentsOf pattern') →
      pathMatches path pattern' .shallow = pathMatches path pattern .shallow := by
  have hsegments : ∀ segment ∈ segmentsOf pattern, CodePoint.char '[' ∉ segment :=
      fun segment h =>
    not_mem_of_mem_segmentsOf h (.inr hbrackets)
  have hiff := pathMatches_iff hpath hsegments hdots
  refine ⟨hiff, fun hstars h => ?_, fun pattern' halike => ?_⟩
  · rw [pathMatches, pathMatchesWith, segments_eq_map hdots, segments_eq_splitOn hpath,
      Bool.or_false] at h
    have hlength := length_eq_of_matches (fun hmem => ?_) h
    · rwa [List.length_map, List.length_map] at hlength
    · obtain ⟨segment, hsegment, heq⟩ := List.mem_map.1 hmem
      have hstars' : segment = [.char '*', .char '*'] := Text.ofList.inj (heq.trans rfl)
      exact hstars (hstars' ▸ hsegment)
  · obtain ⟨hmap, hsegments', hdots'⟩ := Alike.forall₂ halike hsegments hdots
    rw [Bool.eq_iff_iff, hiff, pathMatches_iff hpath hsegments' hdots', language, language, hmap]

/-- Stars within segments, a `**`, and slashes that do not count; without a `**` the same path is
too long. -/
theorem pathMatches_shallow_language_docs :
    let path : Text := "src/api/v1/notes.md"
    let pattern : Text := "src/**/n**s.?d"
    (∀ part ∈ path.toList.splitOn (.char '/'), part ≠ [] ∧ part ≠ [.char '.']) ∧
        CodePoint.char '[' ∉ pattern.toList ∧
      [.char '.'] ∉ segmentsOf pattern ∧ path.toList ++ [.char '/'] ∈ language pattern ∧
      pathMatches path "/src//**/n*s.?d/" .shallow = true ∧
      [.char '*', .char '*'] ∉ segmentsOf "s?c/*" ∧
      pathMatches path "s?c/*" .shallow = false := by
  intro path pattern
  have hpath : ∀ part ∈ path.toList.splitOn (.char '/'), part ≠ [] ∧ part ≠ [.char '.'] := by
    decide +kernel
  have hbrackets : CodePoint.char '[' ∉ pattern.toList := by decide +kernel
  have hdots : [.char '.'] ∉ segmentsOf pattern := by decide +kernel
  have hmatch : pathMatches path pattern .shallow = true := by decide +kernel
  obtain ⟨hiff, -, hsame⟩ := pathMatches_shallow_language hpath hbrackets hdots
  have halike : List.Forall₂ Alike (segmentsOf pattern) (segmentsOf "/src//**/n*s.?d/") := by
    have hsegments : segmentsOf pattern =
        ["src", "**", "n**s.?d"].map fun s => (Text.ofString s).toList := by
      decide +kernel
    have hsegments' : segmentsOf "/src//**/n*s.?d/" =
        ["src", "**", "n*s.?d"].map fun s => (Text.ofString s).toList := by
      decide +kernel
    rw [hsegments, hsegments']
    have hlonger : [CodePoint.char 'n'] ++ ['s', '.', '?', 'd'].map .char ≠ [] := by decide
    have hsingle : [CodePoint.char 'n'] ++ ['s', '.', '?', 'd'].map .char ≠ [.char '*'] := by
      decide
    exact .cons (.same _) (.cons (.same _) (.cons (.stars hlonger hsingle) .nil))
  have hplain : [.char '*', .char '*'] ∉ segmentsOf "s?c/*" := by decide +kernel
  have hlong : pathMatches path "s?c/*" .shallow ≠ true := fun h =>
    absurd ((pathMatches_shallow_language hpath (by decide +kernel) (by decide +kernel)).2.1
        hplain h)
      (by decide +kernel)
  refine ⟨hpath, hbrackets, hdots, hiff.1 hmatch, ?_, hplain, Bool.eq_false_iff.2 hlong⟩
  rw [hsame _ halike, hmatch]

end Conveyor
