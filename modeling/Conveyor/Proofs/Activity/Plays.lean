import Conveyor.Activity.Moment
import Conveyor.Proofs.Activity.Upholds

/-!
# How an activity can go

One way through the tree of an activity: what it lets be seen, which of its waits are cut short,
and how it ends. Nothing is assumed of the surroundings but that a run that is canceled stays
canceled. In particular an activity may be interrupted more than once.

- `Happening`: something is seen, or a wait is cut short.
- `Activity.Plays`: the activity can go like this.
- `Activity.Plays.of_bind` and the like: **how a sequence goes is how its parts go**.
- `Activity.exists_plays_run`: running an activity is one way for it to go.
-/

namespace Conveyor

/-- One thing that happens in the course of an activity. -/
inductive Happening where
  | seen (n : Note)
  /-- A wait is cut short. -/
  | cut
  deriving DecidableEq, Repr

/-- The notes among happenings. -/
def seenAmong : List Happening → List Note
  | [] => []
  | .seen n :: rest => n :: seenAmong rest
  | .cut :: rest => seenAmong rest

@[simp] theorem seenAmong_append (hs hs' : List Happening) :
    seenAmong (hs ++ hs') = seenAmong hs ++ seenAmong hs' := by
  fun_induction seenAmong hs <;> simp_all [seenAmong]

/-- The texts that are written among happenings. -/
def writtenAmong : List Happening → List (List CodePoint)
  | [] => []
  | .seen (.wrote text) :: rest => text :: writtenAmong rest
  | _ :: rest => writtenAmong rest

namespace Activity

variable {ν α β : Type} [NoteKind ν]

/-- One way for an activity to go: what happens, and how it ends. The first flag says whether the
run is canceled when it begins, and the second whether it is when it ends. -/
inductive Plays : Activity ν α → Bool → List Happening → Bool → Ending α → Prop
  | finish (e : Ending α) (c : Bool) : Plays (finish e) c [] c e
  | note {n : ν} {next : Activity ν α} {c c' : Bool} {hs : List Happening} {e : Ending α}
      (rest : Plays next c hs c' e) :
      Plays (note n next) c (.seen (NoteKind.toNote n) :: hs) c' e
  /-- Others may cancel the run meanwhile. -/
  | waited {span : Nat} {next : Bool → Activity ν α} {c c₁ c' : Bool} {hs : List Happening}
      {e : Ending α} (stays : c = true → c₁ = true) (rest : Plays (next false) c₁ hs c' e) :
      Plays (wait span next) c hs c' e
  | cut {span : Nat} {next : Bool → Activity ν α} {c c₁ c' : Bool} {hs : List Happening}
      {e : Ending α} (stays : c = true → c₁ = true) (rest : Plays (next true) c₁ hs c' e) :
      Plays (wait span next) c (.cut :: hs) c' e
  | clock {next : Nat → Activity ν α} {c c' : Bool} {hs : List Happening} {e : Ending α}
    (t : Nat)
      (rest : Plays (next t) c hs c' e) : Plays (clock next) c hs c' e
  | poll {next : Bool → Activity ν α} {c c' : Bool} {hs : List Happening} {e : Ending α}
      (rest : Plays (next c) c hs c' e) : Plays (poll next) c hs c' e
  | cancel {next : Activity ν α} {c c' : Bool} {hs : List Happening} {e : Ending α}
      (rest : Plays next true hs c' e) : Plays (cancel next) c (.seen .canceled :: hs) c' e
  | draw {counter : Counter} {next : Nat → Activity ν α} {c c' : Bool} {hs : List Happening}
      {e : Ending α} (n : Nat) (rest : Plays (next n) c hs c' e) :
      Plays (draw counter next) c hs c' e

namespace Plays

variable {c c' : Bool} {hs : List Happening}

/-! ## Parts that are over at once -/

theorem of_finish {e e' : Ending α} (h : (Activity.finish e' : Activity ν α).Plays c hs c' e) :
    hs = [] ∧ c' = c ∧ e = e' := by
  cases h
  exact ⟨rfl, rfl, rfl⟩

theorem of_tell {n : ν} {f : Unit → Activity ν β} {e : Ending β}
    (h : (tell n >>= f).Plays c hs c' e) :
    ∃ hs', hs = .seen (NoteKind.toNote n) :: hs' ∧ (f ()).Plays c hs' c' e := by
  change (Activity.note n (f ())).Plays c hs c' e at h
  cases h with
  | note rest => exact ⟨_, rfl, rest⟩

theorem of_now {f : Nat → Activity ν β} {e : Ending β} (h : (now >>= f).Plays c hs c' e) :
    ∃ t, (f t).Plays c hs c' e := by
  change (Activity.clock f).Plays c hs c' e at h
  cases h with
  | clock t rest => exact ⟨t, rest⟩

theorem of_isCanceled {f : Bool → Activity ν β} {e : Ending β}
    (h : (isCanceled >>= f).Plays c hs c' e) :
    (f c).Plays c hs c' e := by
  change (Activity.poll f).Plays c hs c' e at h
  cases h with
  | poll rest => exact rest

theorem of_next {counter : Counter} {f : Nat → Activity ν β} {e : Ending β}
    (h : (next counter >>= f).Plays c hs c' e) : ∃ n, (f n).Plays c hs c' e := by
  change (Activity.draw counter f).Plays c hs c' e at h
  cases h with
  | draw n rest => exact ⟨n, rest⟩

/-! ## Sequences -/

/-- **A sequence goes as its first part, and then as its second part goes on from there.** -/
theorem of_andThen {k : Ending α → Activity ν β} {a : Activity ν α} {e : Ending β}
    (h : (a.andThen k).Plays c hs c' e) :
    ∃ hs₁ c₁ e₁ hs₂, hs = hs₁ ++ hs₂ ∧ a.Plays c hs₁ c₁ e₁ ∧ (k e₁).Plays c₁ hs₂ c' e := by
  induction a generalizing c hs with
  | finish e₁ => exact ⟨[], c, e₁, hs, rfl, .finish e₁ c, h⟩
  | note n next ih =>
    cases h with
    | note rest =>
      obtain ⟨hs₁, c₁, e₁, hs₂, rfl, hfirst, hsecond⟩ := ih rest
      exact ⟨_, c₁, e₁, hs₂, rfl, .note hfirst, hsecond⟩
  | wait span next ih =>
    cases h with
    | waited stays rest =>
      obtain ⟨hs₁, c₁, e₁, hs₂, rfl, hfirst, hsecond⟩ := ih false rest
      exact ⟨_, c₁, e₁, hs₂, rfl, .waited stays hfirst, hsecond⟩
    | cut stays rest =>
      obtain ⟨hs₁, c₁, e₁, hs₂, rfl, hfirst, hsecond⟩ := ih true rest
      exact ⟨_, c₁, e₁, hs₂, rfl, .cut stays hfirst, hsecond⟩
  | clock next ih =>
    cases h with
    | clock t rest =>
      obtain ⟨hs₁, c₁, e₁, hs₂, rfl, hfirst, hsecond⟩ := ih t rest
      exact ⟨_, c₁, e₁, hs₂, rfl, .clock t hfirst, hsecond⟩
  | poll next ih =>
    cases h with
    | poll rest =>
      obtain ⟨hs₁, c₁, e₁, hs₂, rfl, hfirst, hsecond⟩ := ih c rest
      exact ⟨_, c₁, e₁, hs₂, rfl, .poll hfirst, hsecond⟩
  | cancel next ih =>
    cases h with
    | cancel rest =>
      obtain ⟨hs₁, c₁, e₁, hs₂, rfl, hfirst, hsecond⟩ := ih rest
      exact ⟨_, c₁, e₁, hs₂, rfl, .cancel hfirst, hsecond⟩
  | draw counter next ih =>
    cases h with
    | draw n rest =>
      obtain ⟨hs₁, c₁, e₁, hs₂, rfl, hfirst, hsecond⟩ := ih n rest
      exact ⟨_, c₁, e₁, hs₂, rfl, .draw n hfirst, hsecond⟩

/-- Going on from a result: the first part has one, or it ends the whole. -/
theorem of_bind {f : α → Activity ν β} {a : Activity ν α} {e : Ending β}
    (h : (a >>= f).Plays c hs c' e) :
    (∃ hs₁ c₁ x hs₂, hs = hs₁ ++ hs₂ ∧ a.Plays c hs₁ c₁ (.done x) ∧ (f x).Plays c₁ hs₂ c' e) ∨
      (∃ fault, e = .failed fault ∧ a.Plays c hs c' (.failed fault)) ∨
      (e = .interrupted ∧ a.Plays c hs c' .interrupted) := by
  obtain ⟨hs₁, c₁, e₁, hs₂, rfl, hfirst, hsecond⟩ := of_andThen h
  cases e₁ with
  | done x => exact .inl ⟨hs₁, c₁, x, hs₂, rfl, hfirst, hsecond⟩
  | failed fault =>
    obtain ⟨rfl, rfl, rfl⟩ := of_finish hsecond
    rw [List.append_nil]
    exact .inr (.inl ⟨fault, rfl, hfirst⟩)
  | interrupted =>
    obtain ⟨rfl, rfl, rfl⟩ := of_finish hsecond
    rw [List.append_nil]
    exact .inr (.inr ⟨rfl, hfirst⟩)

/-- Going on from a part that always has a result. -/
theorem of_bind_of_done {f : α → Activity ν β} {a : Activity ν α} {e : Ending β}
    (hdone : ∀ hs c₁ e₁, a.Plays c hs c₁ e₁ → ∃ x, e₁ = .done x)
    (h : (a >>= f).Plays c hs c' e) :
    ∃ hs₁ c₁ x hs₂, hs = hs₁ ++ hs₂ ∧ a.Plays c hs₁ c₁ (.done x) ∧ (f x).Plays c₁ hs₂ c' e := by
  obtain ⟨hs₁, c₁, e₁, hs₂, rfl, hfirst, hsecond⟩ := of_andThen h
  obtain ⟨x, rfl⟩ := hdone hs₁ c₁ e₁ hfirst
  exact ⟨hs₁, c₁, x, hs₂, rfl, hfirst, hsecond⟩

/-- Going on from the ending of the first part, whatever it is. -/
theorem of_attempt {f : Ending α → Activity ν β} {a : Activity ν α} {e : Ending β}
    (h : (attempt a >>= f).Plays c hs c' e) :
    ∃ hs₁ c₁ e₁ hs₂, hs = hs₁ ++ hs₂ ∧ a.Plays c hs₁ c₁ e₁ ∧ (f e₁).Plays c₁ hs₂ c' e := by
  have hmerge : (attempt a >>= f) = a.andThen f := andThen_andThen _ _ a
  rw [hmerge] at h
  exact of_andThen h

/-- An activity whose texts are kept goes as it would by itself, but what it writes goes into the
buffer instead of being seen. -/
theorem of_collect {b : OutputBuffer} {a : Activity Deed α}
    {e : Ending (OutputBuffer × Ending α)}
    (h : (collect b a).Plays c hs c' e) :
    ∃ ds e₁, a.Plays c ds c' e₁ ∧ e = .done (b.writeAll (writtenAmong ds), e₁) ∧
      ∀ n ∈ seenAmong hs, n.outside = true := by
  induction a generalizing b c hs with
  | finish e₁ =>
    obtain ⟨rfl, rfl, rfl⟩ := of_finish h
    exact ⟨[], e₁, .finish e₁ _, rfl, by simp [seenAmong]⟩
  | note d next ih =>
    -- A text goes into the buffer; everything else is seen.
    have hshown : ∀ d : Deed, (∀ text, d ≠ .wrote text) →
        (Activity.note (StepNote.deed d) (collect b next)).Plays c hs c' e →
        ∃ ds e₁, (Activity.note d next).Plays c ds c' e₁ ∧
          e = .done (b.writeAll (writtenAmong ds), e₁) ∧ ∀ n ∈ seenAmong hs, n.outside =
            true := by
      intro d hd h
      cases h with
      | note rest =>
        obtain ⟨ds, e₁, hplays, rfl, hout⟩ := ih rest
        refine ⟨_, e₁, .note hplays, ?_, fun n hn => ?_⟩
        · cases d with
          | wrote text => exact absurd rfl (hd text)
          | _ => rfl
        · rcases List.mem_cons.1 hn with rfl | hn
          · exact d.outside_toNote
          · exact hout n hn
    cases d with
    | wrote text =>
      obtain ⟨ds, e₁, hplays, rfl, hout⟩ := ih (b := b.write text) h
      exact ⟨_, e₁, .note hplays, rfl, hout⟩
    | log level message => exact hshown _ (fun _ => Deed.noConfusion) h
    | spawned argv => exact hshown _ (fun _ => Deed.noConfusion) h
    | killed group => exact hshown _ (fun _ => Deed.noConfusion) h
    | made path => exact hshown _ (fun _ => Deed.noConfusion) h
    | removed path => exact hshown _ (fun _ => Deed.noConfusion) h
  | wait span next ih =>
    cases h with
    | waited stays rest =>
      obtain ⟨ds, e₁, hplays, rfl, hout⟩ := ih false rest
      exact ⟨ds, e₁, .waited stays hplays, rfl, hout⟩
    | cut stays rest =>
      obtain ⟨ds, e₁, hplays, rfl, hout⟩ := ih true rest
      exact ⟨.cut :: ds, e₁, .cut stays hplays, rfl, hout⟩
  | clock next ih =>
    cases h with
    | clock t rest =>
      obtain ⟨ds, e₁, hplays, rfl, hout⟩ := ih t rest
      exact ⟨ds, e₁, .clock t hplays, rfl, hout⟩
  | poll next ih =>
    cases h with
    | poll rest =>
      obtain ⟨ds, e₁, hplays, rfl, hout⟩ := ih c rest
      exact ⟨ds, e₁, .poll hplays, rfl, hout⟩
  | cancel next ih =>
    cases h with
    | cancel rest =>
      obtain ⟨ds, e₁, hplays, rfl, hout⟩ := ih rest
      exact ⟨_, e₁, .cancel hplays, rfl, by simpa [seenAmong, Note.outside] using hout⟩
  | draw counter next ih =>
    cases h with
    | draw n rest =>
      obtain ⟨ds, e₁, hplays, rfl, hout⟩ := ih n rest
      exact ⟨ds, e₁, .draw n hplays, rfl, hout⟩

/-- A run that is canceled stays canceled. -/
theorem stays {a : Activity ν α} {e : Ending α} (h : a.Plays c hs c' e) :
    c = true → c' = true := by
  induction h with
  | finish e c => exact id
  | note rest ih => exact ih
  | waited stays rest ih => exact fun hc => ih (stays hc)
  | cut stays rest ih => exact fun hc => ih (stays hc)
  | clock t rest ih => exact ih
  | poll rest ih => exact ih
  | cancel rest ih => exact fun _ => ih rfl
  | draw n rest ih => exact ih

end Plays

/-! ## Running an activity -/

/-- Waiting does not take a cancellation back. -/
theorem isCanceled_afterWait (m : Moment) (span : Nat) (h : m.isCanceled = true) :
    (m.afterWait span).2.isCanceled = true := by
  have hle := m.le_now_afterWait span
  have hsame : (m.afterWait span).2.canceledAt = m.canceledAt := by
    unfold Moment.afterWait
    split <;> rfl
  unfold Moment.isCanceled at *
  rw [hsame]
  cases hc : m.canceledAt with
  | none => rw [hc] at h; cases h
  | some t =>
    rw [hc] at h
    exact decide_eq_true (Nat.le_trans (of_decide_eq_true h) hle)

/-- A run that is canceled now is canceled. -/
theorem isCanceled_afterCancel (m : Moment) : m.afterCancel.isCanceled = true := by
  unfold Moment.afterCancel Moment.isCanceled earlier
  cases m.canceledAt with
  | none => exact decide_eq_true (Nat.le_refl _)
  | some t => exact decide_eq_true (Nat.min_le_right _ _)

/-- **Running an activity is one way for it to go.** -/
theorem exists_plays_run (a : Activity ν α) (m : Moment) :
    ∃ hs, a.Plays m.isCanceled hs (a.run m).moment.isCanceled (a.run m).ending ∧
      seenAmong hs = (a.run m).notes.map Prod.snd := by
  induction a generalizing m with
  | finish e => exact ⟨[], .finish e _, rfl⟩
  | note n next ih =>
    obtain ⟨hs, hplays, hseen⟩ := ih m
    exact ⟨_, .note hplays, congrArg (NoteKind.toNote n :: ·) hseen⟩
  | wait span next ih =>
    obtain ⟨hs, hplays, hseen⟩ := ih (m.afterWait span).1 (m.afterWait span).2
    simp only [run]
    cases hcut : (m.afterWait span).1 with
    | false =>
      rw [hcut] at hplays hseen
      exact ⟨hs, .waited (isCanceled_afterWait m span) hplays, hseen⟩
    | true =>
      rw [hcut] at hplays hseen
      exact ⟨.cut :: hs, .cut (isCanceled_afterWait m span) hplays, hseen⟩
  | clock next ih =>
    obtain ⟨hs, hplays, hseen⟩ := ih m.now m
    exact ⟨hs, .clock m.now hplays, hseen⟩
  | poll next ih =>
    obtain ⟨hs, hplays, hseen⟩ := ih m.isCanceled m
    exact ⟨hs, .poll hplays, hseen⟩
  | cancel next ih =>
    obtain ⟨hs, hplays, hseen⟩ := ih m.afterCancel
    rw [isCanceled_afterCancel] at hplays
    exact ⟨_, .cancel hplays, congrArg (Note.canceled :: ·) hseen⟩
  | draw counter next ih =>
    obtain ⟨hs, hplays, hseen⟩ := ih (m.afterDraw counter).1 (m.afterDraw counter).2
    have hsame : (m.afterDraw counter).2.isCanceled = m.isCanceled := by cases counter <;> rfl
    rw [hsame] at hplays
    exact ⟨hs, .draw _ hplays, hseen⟩

end Activity

end Conveyor
