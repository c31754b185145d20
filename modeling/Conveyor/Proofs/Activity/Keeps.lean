import Conveyor.Proofs.Activity.Upholds

/-!
# What an activity keeps over time

Like `Activity.Upholds`, but by the clock: the surroundings are free in all their answers except
that the clock tells the time, and does not go back while an activity waits.

- `Activity.Keeps Q P`: from some time on and after some notes, the activity keeps `Q` at its
  waits and ends in `P`.
- `Activity.Keeps.andThen`, `Activity.Keeps.mono`: sequencing and weakening.
- `Activity.Keeps.proceed`: **what an activity keeps, each of its stretches keeps**.
- `Activity.keeps_collect`: parties outside the engine keep what does not depend on what they do.
-/

namespace Conveyor

namespace Activity

variable {ν α β : Type} [NoteKind ν]

/-- From time `t` on and after some notes, the activity keeps `Q` at its waits and ends in `P`.
Any time may pass while it waits. -/
def Keeps (Q : Nat → List Note → Prop) (P : Nat → List Note → Ending α → Prop) :
    Activity ν α → Nat → List Note → Prop
  | finish e, t, ns => P t ns e
  | note n next, t, ns => next.Keeps Q P t (ns ++ [NoteKind.toNote n])
  | wait _ next, t, ns => Q t ns ∧ ∀ cut t', t ≤ t' → (next cut).Keeps Q P t' ns
  | clock next, t, ns => (next t).Keeps Q P t ns
  | poll next, t, ns => ∀ c, (next c).Keeps Q P t ns
  | cancel next, t, ns => next.Keeps Q P t (ns ++ [.canceled])
  | draw _ next, t, ns => ∀ n, (next n).Keeps Q P t ns

end Activity

/-- Where a stretch leaves an activity, it still keeps the same. -/
def Rest.Keeps {ν α : Type} [NoteKind ν] (Q : Nat → List Note → Prop)
    (P : Nat → List Note → Ending α → Prop) : Rest ν α → Nat → List Note → Prop
  | .ended e, t, ns => P t ns e
  | .waiting _ next, t, ns => Q t ns ∧ ∀ cut t', t ≤ t' → (next cut).Keeps Q P t' ns

/-- A wait may go on. -/
theorem Rest.Keeps.later {ν α : Type} [NoteKind ν] {Q : Nat → List Note → Prop}
    {P : Nat → List Note → Ending α → Prop} {span : Nat} {next : Bool → Activity ν α}
    {t t' : Nat}
    {ns : List Note} (hQ : Q t ns → Q t' ns) (ht : t ≤ t')
    (h : (Rest.waiting span next).Keeps Q P t ns) : (Rest.waiting span next).Keeps Q P t' ns :=
  ⟨hQ h.1, fun cut _ hle => h.2 cut _ (Nat.le_trans ht hle)⟩

namespace Activity

variable {ν α β : Type} [NoteKind ν]

variable {Q : Nat → List Note → Prop} {P P' : Nat → List Note → Ending α → Prop}

/-- A weaker end is kept, too. -/
theorem Keeps.mono (hP : ∀ t ns e, P t ns e → P' t ns e) {a : Activity ν α} {t : Nat}
    {ns : List Note}
    (h : a.Keeps Q P t ns) : a.Keeps Q P' t ns := by
  induction a generalizing t ns with
  | finish e => exact hP t ns e h
  | note n next ih => exact ih h
  | wait span next ih => exact ⟨h.1, fun cut t' ht => ih cut (h.2 cut t' ht)⟩
  | clock next ih => exact ih t h
  | poll next ih => exact fun c => ih c (h c)
  | cancel next ih => exact ih h
  | draw k next ih => exact fun n => ih n (h n)

/-- A sequence keeps what its first part keeps, if that ends where the second part keeps it. -/
theorem Keeps.andThen {R : Nat → List Note → Ending β → Prop} {k : Ending α → Activity ν β}
    {a : Activity ν α} {t : Nat} {ns : List Note}
    (h : a.Keeps Q (fun t ns e => (k e).Keeps Q R t ns) t ns) :
    (a.andThen k).Keeps Q R t ns := by
  induction a generalizing t ns with
  | finish e => exact h
  | note n next ih => exact ih h
  | wait span next ih => exact ⟨h.1, fun cut t' ht => ih cut (h.2 cut t' ht)⟩
  | clock next ih => exact ih t h
  | poll next ih => exact fun c => ih c (h c)
  | cancel next ih => exact ih h
  | draw k next ih => exact fun n => ih n (h n)

/-- Going on from a result: a failure or an interruption of the first part ends the whole. -/
theorem Keeps.bind {R : Nat → List Note → Ending β → Prop} {f : α → Activity ν β}
    {a : Activity ν α}
    {t : Nat} {ns : List Note}
    (h : a.Keeps Q (fun t ns e =>
      match e with
      | .done x => (f x).Keeps Q R t ns
      | .failed fault => R t ns (.failed fault)
      | .interrupted => R t ns .interrupted) t ns) :
    (a >>= f).Keeps Q R t ns := by
  refine Keeps.andThen (h.mono fun t ns e he => ?_)
  cases e with
  | done x => exact he
  | failed fault => exact he
  | interrupted => exact he

/-- **What an activity keeps, each of its stretches keeps.** -/
theorem Keeps.proceed {a : Activity ν α} {s : Surroundings} {ns : List Note}
    (h : a.Keeps Q P s.now ns) :
    (a.proceed s).rest.Keeps Q P s.now (ns ++ (a.proceed s).notes) := by
  induction a generalizing s ns with
  | finish e =>
    show P s.now (ns ++ []) e
    rw [List.append_nil]
    exact h
  | note n next ih => simpa [Activity.proceed] using ih h
  | wait span next ih =>
    show Rest.Keeps Q P (.waiting span next) s.now (ns ++ [])
    rw [List.append_nil]
    exact h
  | clock next ih => exact ih s.now h
  | poll next ih => exact ih s.canceled (h s.canceled)
  | cancel next ih => simpa [Activity.proceed] using ih (s := { s with canceled := true }) h
  | draw k next ih =>
    have hd : (s.draw k).2.now = s.now := by cases k <;> rfl
    have h' := h (s.draw k).1
    rw [← hd] at h'
    have hr := ih (s.draw k).1 h'
    rw [hd] at hr
    exact hr

/-- An activity whose texts are kept ends with the buffer and its own ending, whatever that is,
and adds only what is done outside. -/
theorem keeps_collect {Q : Nat → List Note → Prop}
    {P : Nat → List Note → Ending (OutputBuffer × Ending α) → Prop} {t : Nat} {ns : List Note}
    (hQ : ∀ t', t ≤ t' → ∀ ms : List Note, (∀ n ∈ ms, n.outside = true) → Q t' (ns ++ ms))
    (hP : ∀ t', t ≤ t' → ∀ b e, ∀ ms : List Note, (∀ n ∈ ms, n.outside = true) →
      P t' (ns ++ ms) (.done (b, e)))
    (a : Activity Deed α) (b : OutputBuffer) : (collect b a).Keeps Q P t ns := by
  -- For the induction, `ms` are the notes that the activity has made so far, and `t'` is the
  -- time.
  suffices hmade : ∀ t', t ≤ t' → ∀ ms : List Note, (∀ n ∈ ms, n.outside = true) →
      (collect b a).Keeps Q P t' (ns ++ ms) by
    have h := hmade t (Nat.le_refl t) [] (by simp)
    rwa [List.append_nil] at h
  intro t' ht ms hms
  induction a generalizing b t' ms with
  | finish e => exact hP t' ht b e ms hms
  | note d next ih =>
    have hshown : ∀ b, (collect b next).Keeps Q P t' (ns ++ ms ++ [d.toNote]) := by
      intro b
      rw [List.append_assoc]
      exact ih b t' ht _ (outside_snoc hms d.outside_toNote)
    cases d with
    | wrote text => exact ih (b.write text) t' ht ms hms
    | log level message => exact hshown b
    | spawned argv => exact hshown b
    | killed group => exact hshown b
    | made path => exact hshown b
    | removed path => exact hshown b
  | wait span next ih =>
    exact ⟨hQ t' ht ms hms, fun cut t'' hle => ih cut b t'' (Nat.le_trans ht hle) ms hms⟩
  | clock next ih => exact ih t' b t' ht ms hms
  | poll next ih => exact fun c => ih c b t' ht ms hms
  | cancel next ih =>
    show (collect b next).Keeps Q P t' (ns ++ ms ++ [.canceled])
    rw [List.append_assoc]
    exact ih b t' ht _ (outside_snoc hms rfl)
  | draw k next ih => exact fun n => ih n b t' ht ms hms

end Activity

end Conveyor
