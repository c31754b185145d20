import Conveyor.Proofs.Activity.Upholds

/-!
# Activities at another time

The same activity may run at another time, and beside other activities. What can be different
then is what the clock says and which numbers are left. An activity that takes no notice of that
does the same again, as long as nobody cancels the run.

- `Activity.Alike d`: two activities that cannot be told apart when the clock of the first is `d`
  nanoseconds ahead of that of the second.
- `Activity.Alike.andThen`, `.bind`, `.collect`: parts that are alike make wholes that are alike.
- `Activity.Alike.proceed`: **activities that are alike do the same in a turn**.
-/

namespace Conveyor

namespace Activity

variable {ν α β : Type} {d : Nat}

/-- Two activities that do the same when the clock of the first is `d` ahead of that of the
second, whatever numbers they draw, until the run is canceled. -/
inductive Alike (d : Nat) : Activity ν α → Activity ν α → Prop
  | finish (ending : Ending α) : Alike d (.finish ending) (.finish ending)
  | note (n : ν) {a b : Activity ν α} (next : Alike d a b) : Alike d (.note n a) (.note n b)
  | wait (span : Nat) {f g : Bool → Activity ν α} (next : ∀ cut, Alike d (f cut) (g cut)) :
      Alike d (.wait span f) (.wait span g)
  | clock {f g : Nat → Activity ν α} (next : ∀ t, Alike d (f (t + d)) (g t)) :
      Alike d (.clock f) (.clock g)
  | poll {f g : Bool → Activity ν α} (next : Alike d (f false) (g false)) :
      Alike d (.poll f) (.poll g)
  | cancel {a b : Activity ν α} : Alike d (.cancel a) (.cancel b)
  | draw (c : Counter) {f g : Nat → Activity ν α} (next : ∀ m n, Alike d (f m) (g n)) :
      Alike d (.draw c f) (.draw c g)

namespace Alike

theorem andThen {a b : Activity ν α} (h : Alike d a b) {k l : Ending α → Activity ν β}
    (hk : ∀ e, Alike d (k e) (l e)) : Alike d (a.andThen k) (b.andThen l) := by
  induction h with
  | finish ending => exact hk ending
  | note n next ih => exact .note n ih
  | wait span next ih => exact .wait span ih
  | clock next ih => exact .clock ih
  | poll next ih => exact .poll ih
  | cancel => exact .cancel
  | draw c next ih => exact .draw c ih

theorem bind {a b : Activity ν α} (h : Alike d a b) {f g : α → Activity ν β}
    (hf : ∀ x, Alike d (f x) (g x)) : Alike d (a >>= f) (b >>= g) := by
  refine h.andThen fun e => ?_
  cases e with
  | done x => exact hf x
  | failed fault => exact .finish _
  | interrupted => exact .finish _

/-- What is kept of the texts that are written is alike. -/
theorem collect {a b : Activity Deed α} (h : Alike d a b) (buffer : OutputBuffer) :
    Alike d (a.collect buffer) (b.collect buffer) := by
  induction h generalizing buffer with
  | finish ending => exact .finish _
  | note n next ih =>
    cases n with
    | wrote text => exact ih (buffer.write text)
    | log level message => exact .note _ (ih buffer)
    | spawned argv => exact .note _ (ih buffer)
    | killed group => exact .note _ (ih buffer)
    | made path => exact .note _ (ih buffer)
    | removed path => exact .note _ (ih buffer)
  | wait span next ih => exact .wait span fun cut => ih cut buffer
  | clock next ih => exact .clock fun t => ih t buffer
  | poll next ih => exact .poll (ih buffer)
  | cancel => exact .cancel
  | draw c next ih => exact .draw c fun m n => ih m n buffer

end Alike

theorem alike_log [NoteKind ν] (d : Nat) (level : LogLevel) (message : Text) :
    Alike d (log (ν := ν) level message) (log level message) :=
  .note _ (.finish _)

end Activity

/-- Two rests that go on alike. -/
inductive Rest.Alike {ν α : Type} (d : Nat) : Rest ν α → Rest ν α → Prop
  | ended (ending : Ending α) : Alike d (.ended ending) (.ended ending)
  | waiting (span : Nat) {f g : Bool → Activity ν α}
      (next : ∀ cut, Activity.Alike d (f cut) (g cut)) :
      Alike d (.waiting span f) (.waiting span g)

/-- What an activity finds around it at another time: the clock is `d` ahead, and neither run is
canceled. -/
structure Surroundings.Alike (d : Nat) (s t : Surroundings) : Prop where
  now : s.now = t.now + d
  running : s.canceled = false
  running' : t.canceled = false

/-- What an activity does in a turn is the same, and it goes on alike. -/
structure Stretch.Alike {ν α : Type} (d : Nat) (s t : Stretch ν α) : Prop where
  notes : t.notes = s.notes
  around : s.around.Alike d t.around
  rest : s.rest.Alike d t.rest

theorem Surroundings.Alike.draw {d : Nat} {s t : Surroundings} (h : s.Alike d t) (c : Counter) :
    (s.draw c).2.Alike d (t.draw c).2 := by
  cases c with
  | names => exact ⟨h.now, h.running, h.running'⟩
  | processes => exact ⟨h.now, h.running, h.running'⟩

/-- **Activities that are alike do the same in a turn**, unless it cancels the run. -/
theorem Activity.Alike.proceed {ν α : Type} [NoteKind ν] {d : Nat} {a b : Activity ν α}
    (h : a.Alike d b) {s t : Surroundings} (hst : s.Alike d t)
    (hrun : (a.proceed s).around.canceled = false) : (a.proceed s).Alike d (b.proceed t) := by
  induction h generalizing s t with
  | finish ending => exact ⟨rfl, hst, .ended ending⟩
  | note n next ih =>
    have hnext := ih hst hrun
    exact ⟨congrArg (NoteKind.toNote n :: ·) hnext.notes, hnext.around, hnext.rest⟩
  | wait span next ih => exact ⟨rfl, hst, .waiting span next⟩
  | @clock f g next ih =>
    have hnext := ih t.now hst
    rw [← hst.now] at hnext
    exact hnext hrun
  | @poll f g next ih =>
    simp only [Activity.proceed, hst.running, hst.running'] at hrun ⊢
    exact ih hst hrun
  | @cancel a b =>
    have hcanceled := a.proceed_canceled { s with canceled := true } rfl
    simp only [Activity.proceed] at hrun
    rw [hcanceled] at hrun
    cases hrun
  | draw c next ih => exact ih _ _ (hst.draw c) hrun

end Conveyor
