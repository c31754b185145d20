import Conveyor.Activity.Stretch

/-!
# What an activity upholds

An activity is a tree, and the surroundings decide which branch of it is taken. Statements about
an activity hold on all branches: something is kept wherever the activity waits, and something is
reached wherever it ends. The surroundings are free in their answers but for one thing: a run
that is canceled stays canceled.

- `Heeds`: no script begins among some notes once the run is canceled.
- `Activity.Upholds Q P`: after some notes, the activity heeds the cancellation, keeps `Q` at its
  waits and ends in `P`.
- `Activity.Upholds.andThen`, `Activity.Upholds.mono`: sequencing and weakening.
- `Activity.Upholds.proceed`: **what an activity upholds, each of its stretches upholds**.
- `Activity.Ends`: one of the ways in which an activity can end.
- `Activity.outside_proceed`, `Activity.upholds_collect`: parties outside the engine show no step
  results and begin no scripts.
-/

namespace Conveyor

/-! ## Notes and the cancellation of the run -/

/-- Does the note say that a script begins? -/
def Note.begins : Note → Bool
  | .began .. => true
  | _ => false

/-- Is the run canceled after some notes, if `c` says whether it was before? -/
def canceledAfter (c : Bool) (ns : List Note) : Bool := c || decide (Note.canceled ∈ ns)

@[simp] theorem canceledAfter_nil (c : Bool) : canceledAfter c [] = c := by simp [canceledAfter]

theorem canceledAfter_append (c : Bool) (ms ns : List Note) :
    canceledAfter c (ms ++ ns) = canceledAfter (canceledAfter c ms) ns := by
  simp [canceledAfter, Bool.or_assoc]

/-- No script begins among some notes once the run is canceled; `c` says whether it was canceled
before them. -/
def Heeds : Bool → List Note → Prop
  | _, [] => True
  | c, n :: rest => (n.begins = true → c = false) ∧ Heeds (canceledAfter c [n]) rest

theorem heeds_append (c : Bool) (ms ns : List Note) :
    Heeds c (ms ++ ns) ↔ Heeds c ms ∧ Heeds (canceledAfter c ms) ns := by
  induction ms generalizing c with
  | nil => simp [Heeds]
  | cons m ms ih =>
    have hc : canceledAfter c (m :: ms) = canceledAfter (canceledAfter c [m]) ms :=
      canceledAfter_append c [m] ms
    simp only [List.cons_append, Heeds, ih, hc, and_assoc]

/-- Notes without any script heed every cancellation. -/
theorem heeds_of_not_begins {ns : List Note} (h : ∀ n ∈ ns, n.begins = false) (c : Bool) :
    Heeds c ns := by
  induction ns generalizing c with
  | nil => trivial
  | cons n ns ih =>
    refine ⟨fun hn => ?_, ih (fun m hm => h m (List.mem_cons_of_mem n hm)) _⟩
    rw [h n List.mem_cons_self] at hn
    exact absurd hn Bool.false_ne_true

/-- Whatever begins begins before the run is canceled. -/
theorem Heeds.before_cancel {c : Bool} {before after : List Note} {n : Note}
    (h : Heeds c (before ++ n :: after)) (hn : n.begins = true) :
    c = false ∧ Note.canceled ∉ before := by
  have hc : canceledAfter c before = false := ((heeds_append c before _).1 h).2.1 hn
  simpa [canceledAfter] using hc

/-! ## Notes of parties outside the engine -/

/-- Can a party outside the engine show this? -/
def Note.outside : Note → Bool
  | .log .. | .wrote _ | .spawned _ | .killed _ | .made _ | .removed _ | .canceled => true
  | _ => false

/-- A deed is done outside. -/
theorem Deed.outside_toNote (d : Deed) : d.toNote.outside = true := by
  cases d <;> rfl

/-- Nothing that is done outside is the beginning of a script. -/
theorem Note.begins_of_outside {n : Note} (h : n.outside = true) : n.begins = false := by
  cases n <;> simp_all [outside, begins]

/-- A note of a party is not that the run was canceled. -/
theorem NoteKind.toNote_ne_canceled {ν : Type} [NoteKind ν] (n : ν) : toNote n ≠ .canceled := by
  intro h
  have hn := isVerdict_toNote n
  rw [h] at hn
  cases hn

namespace Activity

variable {ν α β : Type} [NoteKind ν]

/-! ## Upholding -/

/-- After some notes, with the run canceled or not, the activity heeds the cancellation, keeps
`Q` at its waits and ends in `P`. Others may cancel the run while it waits. -/
def Upholds (Q : List Note → Prop) (P : Bool → List Note → Ending α → Prop) :
    Activity ν α → Bool → List Note → Prop
  | finish e, c, ns => P c ns e
  | note n next, c, ns =>
    ((NoteKind.toNote n).begins = true → c = false) ∧
      next.Upholds Q P c (ns ++ [NoteKind.toNote n])
  | wait _ next, c, ns =>
    Q ns ∧ ∀ cut c', (c = true → c' = true) → (next cut).Upholds Q P c' ns
  | clock next, c, ns => ∀ t, (next t).Upholds Q P c ns
  | poll next, c, ns => (next c).Upholds Q P c ns
  | cancel next, _, ns => next.Upholds Q P true (ns ++ [.canceled])
  | draw _ next, c, ns => ∀ n, (next n).Upholds Q P c ns

end Activity

/-- Where a stretch leaves an activity, it still upholds the same. -/
def Rest.Upholds {ν α : Type} [NoteKind ν] (Q : List Note → Prop)
    (P : Bool → List Note → Ending α → Prop) : Rest ν α → Bool → List Note → Prop
  | .ended e, c, ns => P c ns e
  | .waiting _ next, c, ns =>
    Q ns ∧ ∀ cut c', (c = true → c' = true) → (next cut).Upholds Q P c' ns

namespace Activity

variable {ν α β : Type} [NoteKind ν]

variable {Q : List Note → Prop} {P P' : Bool → List Note → Ending α → Prop}

/-- A weaker end is upheld, too. -/
theorem Upholds.mono (hP : ∀ c ns e, P c ns e → P' c ns e) {a : Activity ν α} {c : Bool}
    {ns : List Note} (h : a.Upholds Q P c ns) : a.Upholds Q P' c ns := by
  induction a generalizing c ns with
  | finish e => exact hP c ns e h
  | note n next ih => exact ⟨h.1, ih h.2⟩
  | wait span next ih => exact ⟨h.1, fun cut c' hc => ih cut (h.2 cut c' hc)⟩
  | clock next ih => exact fun t => ih t (h t)
  | poll next ih => exact ih c h
  | cancel next ih => exact ih h
  | draw k next ih => exact fun n => ih n (h n)

/-- A sequence upholds what its first part upholds, if that ends where the second part upholds
it. -/
theorem Upholds.andThen {R : Bool → List Note → Ending β → Prop} {k : Ending α → Activity ν β}
    {a : Activity ν α} {c : Bool} {ns : List Note}
    (h : a.Upholds Q (fun c ns e => (k e).Upholds Q R c ns) c ns) :
    (a.andThen k).Upholds Q R c ns := by
  induction a generalizing c ns with
  | finish e => exact h
  | note n next ih => exact ⟨h.1, ih h.2⟩
  | wait span next ih => exact ⟨h.1, fun cut c' hc => ih cut (h.2 cut c' hc)⟩
  | clock next ih => exact fun t => ih t (h t)
  | poll next ih => exact ih c h
  | cancel next ih => exact ih h
  | draw k next ih => exact fun n => ih n (h n)

/-- Going on from a result: a failure or an interruption of the first part ends the whole. -/
theorem Upholds.bind {R : Bool → List Note → Ending β → Prop} {f : α → Activity ν β}
    {a : Activity ν α} {c : Bool} {ns : List Note}
    (h : a.Upholds Q (fun c ns e =>
      match e with
      | .done x => (f x).Upholds Q R c ns
      | .failed fault => R c ns (.failed fault)
      | .interrupted => R c ns .interrupted) c ns) :
    (a >>= f).Upholds Q R c ns := by
  refine Upholds.andThen (h.mono fun c ns e he => ?_)
  cases e with
  | done x => exact he
  | failed fault => exact he
  | interrupted => exact he

/-! ## Stretches -/

/-- The run is canceled after a stretch iff it was before, or the stretch shows a
cancellation. -/
theorem proceed_canceled_eq (a : Activity ν α) (s : Surroundings) :
    (a.proceed s).around.canceled = canceledAfter s.canceled (a.proceed s).notes := by
  induction a generalizing s with
  | finish e => simp [proceed]
  | note n next ih =>
    have hn : Note.canceled ≠ NoteKind.toNote n := (NoteKind.toNote_ne_canceled n).symm
    simpa [proceed, canceledAfter, hn] using ih s
  | wait span next => simp [proceed]
  | clock next ih => exact ih s.now s
  | poll next ih => exact ih s.canceled s
  | cancel next ih =>
    have h := proceed_canceled next { s with canceled := true } rfl
    simpa [proceed, canceledAfter] using h
  | draw k next ih =>
    have hd : (s.draw k).2.canceled = s.canceled := by cases k <;> rfl
    have h := ih (s.draw k).1 (s.draw k).2
    rw [hd] at h
    exact h

/-- **What an activity upholds, each of its stretches upholds**: it heeds the cancellation in the
stretch, and afterwards it still upholds the same. -/
theorem Upholds.proceed {a : Activity ν α} {s : Surroundings} {ns : List Note}
    (h : a.Upholds Q P s.canceled ns) :
    Heeds s.canceled (a.proceed s).notes ∧
      (a.proceed s).rest.Upholds Q P (a.proceed s).around.canceled
        (ns ++ (a.proceed s).notes) := by
  induction a generalizing s ns with
  | finish e =>
    refine ⟨trivial, ?_⟩
    show P s.canceled (ns ++ []) e
    rw [List.append_nil]
    exact h
  | note n next ih =>
    obtain ⟨hn, hnext⟩ := h
    obtain ⟨hh, hr⟩ := ih hnext
    have hc : canceledAfter s.canceled [NoteKind.toNote n] = s.canceled := by
      simp [canceledAfter, (NoteKind.toNote_ne_canceled n).symm]
    refine ⟨⟨hn, ?_⟩, ?_⟩
    · rw [hc]
      exact hh
    · simpa [Activity.proceed] using hr
  | wait span next ih =>
    refine ⟨trivial, ?_⟩
    show Rest.Upholds Q P (.waiting span next) s.canceled (ns ++ [])
    rw [List.append_nil]
    exact h
  | clock next ih => exact ih s.now (h s.now)
  | poll next ih => exact ih s.canceled h
  | cancel next ih =>
    obtain ⟨hh, hr⟩ := ih (s := { s with canceled := true }) h
    refine ⟨⟨fun hn => ?_, ?_⟩, ?_⟩
    · simp [Note.begins] at hn
    · simpa [canceledAfter] using hh
    · simpa [Activity.proceed] using hr
  | draw k next ih =>
    have hd : (s.draw k).2.canceled = s.canceled := by cases k <;> rfl
    have h' := h (s.draw k).1
    rw [← hd] at h'
    obtain ⟨hh, hr⟩ := ih (s.draw k).1 h'
    rw [hd] at hh
    exact ⟨hh, hr⟩

/-- No stretch shows that a job has a result. -/
theorem completed_not_mem_proceed (a : Activity ν α) (s : Surroundings) (r : JobResult) :
    .completed r ∉ (a.proceed s).notes := by
  induction a generalizing s with
  | finish e => exact fun h => nomatch h
  | note n next ih =>
    intro h
    rcases List.mem_cons.1 h with h | h
    · have hn := NoteKind.isVerdict_toNote n
      rw [← h] at hn
      cases hn
    · exact ih s h
  | wait span next => exact fun h => nomatch h
  | clock next ih => exact ih s.now s
  | poll next ih => exact ih s.canceled s
  | cancel next ih =>
    intro h
    rcases List.mem_cons.1 h with h | h
    · cases h
    · exact ih _ h
  | draw k next ih => exact ih (s.draw k).1 (s.draw k).2

/-! ## Parties outside the engine -/

/-- All that a party outside the engine shows in a stretch is done outside. -/
theorem outside_proceed (a : Activity Deed α) (s : Surroundings) :
    ∀ n ∈ (a.proceed s).notes, n.outside = true := by
  induction a generalizing s with
  | finish e => simp [proceed]
  | note d next ih =>
    intro n hn
    rcases List.mem_cons.1 hn with rfl | hn
    · exact d.outside_toNote
    · exact ih s n hn
  | wait span next => simp [proceed]
  | clock next ih => exact ih s.now s
  | poll next ih => exact ih s.canceled s
  | cancel next ih =>
    intro n hn
    rcases List.mem_cons.1 hn with rfl | hn
    · rfl
    · exact ih _ n hn
  | draw k next ih => exact ih (s.draw k).1 (s.draw k).2

/-- One more thing that is done outside. -/
theorem outside_snoc {ms : List Note} {m : Note} (hms : ∀ n ∈ ms, n.outside = true)
    (hm : m.outside = true) : ∀ n ∈ ms ++ [m], n.outside = true := by
  intro n hn
  rcases List.mem_append.1 hn with hn | hn
  · exact hms n hn
  · rw [List.mem_singleton.1 hn]
    exact hm

/-- An activity whose texts are kept ends with the buffer and its own ending, whatever that is,
and adds only what is done outside. -/
theorem upholds_collect {Q : List Note → Prop}
    {P : Bool → List Note → Ending (OutputBuffer × Ending α) → Prop} {ns : List Note}
    (hQ : ∀ ms : List Note, (∀ n ∈ ms, n.outside = true) → Q (ns ++ ms))
    (hP : ∀ c b e, ∀ ms : List Note, (∀ n ∈ ms, n.outside = true) →
        P c (ns ++ ms) (.done (b, e)))
    (a : Activity Deed α) (b : OutputBuffer) (c : Bool) : (collect b a).Upholds Q P c ns := by
  -- For the induction, `ms` are the notes that the activity has made so far.
  suffices hmade : ∀ ms : List Note, (∀ n ∈ ms, n.outside = true) →
      (collect b a).Upholds Q P c (ns ++ ms) by
    have h := hmade [] (by simp)
    rwa [List.append_nil] at h
  intro ms hms
  induction a generalizing b c ms with
  | finish e => exact hP c b e ms hms
  | note d next ih =>
    have hshown : ∀ b, ((NoteKind.toNote (StepNote.deed d)).begins = true → c = false) ∧
        (collect b next).Upholds Q P c (ns ++ ms ++ [d.toNote]) := by
      intro b
      refine ⟨fun hb => ?_, ?_⟩
      · have hd : (NoteKind.toNote (StepNote.deed d)).begins = false :=
          Note.begins_of_outside d.outside_toNote
        rw [hd] at hb
        exact absurd hb Bool.false_ne_true
      · rw [List.append_assoc]
        exact ih b c _ (outside_snoc hms d.outside_toNote)
    cases d with
    | wrote text => exact ih (b.write text) c ms hms
    | log level message => exact hshown b
    | spawned argv => exact hshown b
    | killed group => exact hshown b
    | made path => exact hshown b
    | removed path => exact hshown b
  | wait span next ih => exact ⟨hQ ms hms, fun cut c' _ => ih cut b c' ms hms⟩
  | clock next ih => exact fun t => ih t b c ms hms
  | poll next ih => exact ih c b c ms hms
  | cancel next ih =>
    show (collect b next).Upholds Q P true (ns ++ ms ++ [.canceled])
    rw [List.append_assoc]
    exact ih b true _ (outside_snoc hms rfl)
  | draw k next ih => exact fun n => ih n b c ms hms

/-! ## Endings -/

/-- The activity can end in this way. -/
def Ends (e : Ending α) : Activity ν α → Prop
  | finish e' => e' = e
  | note _ next => next.Ends e
  | wait _ next => ∃ cut, (next cut).Ends e
  | clock next => ∃ t, (next t).Ends e
  | poll next => ∃ c, (next c).Ends e
  | cancel next => next.Ends e
  | draw _ next => ∃ n, (next n).Ends e

/-- The endings that are left after a stretch were possible before it. -/
theorem ends_of_proceed {a : Activity ν α} {s : Surroundings} {e : Ending α}
    (h : match (a.proceed s).rest with
      | .ended e' => e' = e
      | .waiting _ next => ∃ cut, (next cut).Ends e) : a.Ends e := by
  induction a generalizing s with
  | finish e' => exact h
  | note n next ih => exact ih h
  | wait span next => exact h
  | clock next ih => exact ⟨s.now, ih s.now h⟩
  | poll next ih => exact ⟨s.canceled, ih s.canceled h⟩
  | cancel next ih => exact ih h
  | draw k next ih => exact ⟨(s.draw k).1, ih (s.draw k).1 h⟩

end Activity

end Conveyor
