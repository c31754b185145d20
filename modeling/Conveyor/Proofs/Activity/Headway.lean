import Conveyor.Proofs.Activity.Plays

/-!
# How far an activity has gone

An activity that shares a clock is run turn by turn, and between two turns what is left of it is
kept somewhere. That it is really what is left is said by how the rest can go: as the activity
does after what happened so far.

- `Rest.Continues`: whatever the rest does is how the activity goes on.
- `Activity.GoneTo`: with these notes so far, this is left of the activity.
- `Activity.goneTo_proceed`, `Activity.GoneTo.proceed`: **the first turn, and every other one**.
- `Activity.GoneTo.exists_plays`: what was seen so far is how some way to go begins.
-/

namespace Conveyor

variable {ν α : Type} [NoteKind ν]

/-- Whatever the rest does is how the activity goes on after `hs`. The flags say whether the run
was canceled at the beginning, and whether it is now. -/
def Rest.Continues (a : Activity ν α) (c : Bool) (hs : List Happening) (c' : Bool) :
    Rest ν α → Prop
  | .ended e => a.Plays c hs c' e
  | .waiting _ next => ∀ (cut c₁ : Bool), (c' = true → c₁ = true) → ∀ hs' c₂ e,
    (next cut).Plays c₁ hs' c₂ e → a.Plays c (hs ++ if cut then .cut :: hs' else hs') c₂ e

/-- What continues an activity continues whatever comes to that activity after some
happenings. -/
theorem Rest.Continues.lift {a b : Activity ν α} {c c₀ c' : Bool} {hs : List Happening}
    {rest : Rest ν α} (h : rest.Continues b c hs c') (front : List Happening)
    (hlift : ∀ hs c' e, b.Plays c hs c' e → a.Plays c₀ (front ++ hs) c' e) :
    rest.Continues a c₀ (front ++ hs) c' := by
  cases rest with
  | ended e => exact hlift _ _ _ h
  | waiting span next =>
    intro cut c₁ stays hs' c₂ e plays
    rw [List.append_assoc]
    exact hlift _ _ _ (h cut c₁ stays hs' c₂ e plays)

namespace Activity

variable {a : Activity ν α} {ms : List Note} {c c' : Bool} {rest : Rest ν α}

/-- With these notes so far, this is left of the activity. -/
def GoneTo (a : Activity ν α) (ms : List Note) (c : Bool) (rest : Rest ν α) : Prop :=
  ∃ c₀ hs, seenAmong hs = ms ∧ rest.Continues a c₀ hs c

/-- **The first turn of an activity leaves what continues it.** -/
theorem continues_proceed (a : Activity ν α) (s : Surroundings) :
    ∃ hs, seenAmong hs = (a.proceed s).notes ∧
      (a.proceed s).rest.Continues a s.canceled hs (a.proceed s).around.canceled := by
  induction a generalizing s with
  | finish e => exact ⟨[], rfl, .finish e _⟩
  | note n next ih =>
    obtain ⟨hs, hseen, hrest⟩ := ih s
    exact ⟨.seen (NoteKind.toNote n) :: hs, congrArg (NoteKind.toNote n :: ·) hseen,
      hrest.lift [.seen _] fun _ _ _ => .note⟩
  | wait span next =>
    refine ⟨[], rfl, fun cut c₁ stays hs' c₂ e plays => ?_⟩
    cases cut with
    | true => exact .cut stays plays
    | false => exact .waited stays plays
  | clock next ih =>
    obtain ⟨hs, hseen, hrest⟩ := ih s.now s
    exact ⟨hs, hseen, hrest.lift [] fun _ _ _ => .clock s.now⟩
  | poll next ih =>
    obtain ⟨hs, hseen, hrest⟩ := ih s.canceled s
    exact ⟨hs, hseen, hrest.lift [] fun _ _ _ => .poll⟩
  | cancel next ih =>
    obtain ⟨hs, hseen, hrest⟩ := ih { s with canceled := true }
    exact ⟨.seen .canceled :: hs, congrArg (Note.canceled :: ·) hseen,
      hrest.lift [.seen .canceled] fun _ _ _ => .cancel⟩
  | draw counter next ih =>
    obtain ⟨hs, hseen, hrest⟩ := ih (s.draw counter).1 (s.draw counter).2
    have hsame : (s.draw counter).2.canceled = s.canceled := by cases counter <;> rfl
    rw [hsame] at hrest
    exact ⟨hs, hseen, hrest.lift [] fun _ _ _ => .draw _⟩

theorem goneTo_proceed (a : Activity ν α) (s : Surroundings) :
    a.GoneTo (a.proceed s).notes (a.proceed s).around.canceled (a.proceed s).rest := by
  obtain ⟨hs, hseen, hrest⟩ := a.continues_proceed s
  exact ⟨s.canceled, hs, hseen, hrest⟩

namespace GoneTo

/-- While an activity waits, others may cancel the run. -/
theorem later {span : Nat} {next : Bool → Activity ν α} (h : a.GoneTo ms c (.waiting span next))
    (stays : c = true → c' = true) : a.GoneTo ms c' (.waiting span next) := by
  obtain ⟨c₀, hs, hseen, hrest⟩ := h
  exact ⟨c₀, hs, hseen, fun cut c₁ hc => hrest cut c₁ fun h => hc (stays h)⟩

/-- **Every other turn of an activity leaves what continues it.** -/
theorem proceed {span : Nat} {next : Bool → Activity ν α}
    (h : a.GoneTo ms c (.waiting span next))
    {s : Surroundings} (stays : c = true → s.canceled = true) (cut : Bool) :
    a.GoneTo (ms ++ ((next cut).proceed s).notes) ((next cut).proceed s).around.canceled
      ((next cut).proceed s).rest := by
  obtain ⟨c₀, hs, rfl, hrest⟩ := h
  obtain ⟨hs', hseen, hrest'⟩ := (next cut).continues_proceed s
  refine ⟨c₀, (hs ++ if cut then [.cut] else []) ++ hs', ?_,
    hrest'.lift _ fun hs'' c'' e plays => ?_⟩
  · rw [← hseen]
    cases cut <;> simp [seenAmong]
  · have hplays := hrest cut s.canceled stays hs'' c'' e plays
    cases cut <;> simpa using hplays

end GoneTo

/-- Every activity can go in some way. -/
theorem exists_plays (a : Activity ν α) (c : Bool) : ∃ hs c' e, a.Plays c hs c' e := by
  induction a generalizing c with
  | finish e => exact ⟨[], c, e, .finish e c⟩
  | note n next ih =>
    obtain ⟨hs, c', e, h⟩ := ih c
    exact ⟨_, c', e, .note h⟩
  | wait span next ih =>
    obtain ⟨hs, c', e, h⟩ := ih false c
    exact ⟨hs, c', e, .waited id h⟩
  | clock next ih =>
    obtain ⟨hs, c', e, h⟩ := ih 0 c
    exact ⟨hs, c', e, .clock 0 h⟩
  | poll next ih =>
    obtain ⟨hs, c', e, h⟩ := ih c c
    exact ⟨hs, c', e, .poll h⟩
  | cancel next ih =>
    obtain ⟨hs, c', e, h⟩ := ih true
    exact ⟨_, c', e, .cancel h⟩
  | draw counter next ih =>
    obtain ⟨hs, c', e, h⟩ := ih 0 c
    exact ⟨hs, c', e, .draw 0 h⟩

/-- **What was seen so far is how some way to go begins.** -/
theorem GoneTo.exists_plays (h : a.GoneTo ms c rest) :
    ∃ c₀ hs c' e, a.Plays c₀ hs c' e ∧ ms <+: seenAmong hs := by
  obtain ⟨c₀, hs, rfl, hrest⟩ := h
  cases rest with
  | ended e => exact ⟨c₀, hs, c, e, hrest, List.prefix_refl _⟩
  | waiting span next =>
    obtain ⟨hs', c', e, plays⟩ := (next false).exists_plays c
    refine ⟨c₀, hs ++ hs', c', e, hrest false c id hs' c' e plays, ?_⟩
    rw [seenAmong_append]
    exact List.prefix_append _ _

end Activity

end Conveyor
