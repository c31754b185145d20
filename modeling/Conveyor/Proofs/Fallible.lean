import Mathlib.Data.List.Forall2

/-!
# Computations that can fail

What is known of the parts of a computation, given how the whole of it ended.

- `bind_eq_ok`, `bind_eq_error`, `bind_of_ok`, `bind_of_error`, `exists_bind_ok`: one computation
  after another.
- `exists_of_map_eq_ok`, `eq_ok_of_mapError`, `eq_ok_of_toOption`: a result or a fault that is
  rewritten.
- `mapM_eq_ok`, `exists_of_mapM_eq_error`, `forall_mem_of_mapM_eq_some`: a list that is worked
  off, element by element.
- `exists_mem_of_forall₂`: where a result comes from.
-/

namespace Conveyor

variable {ε α β : Type} {x : Except ε α} {g : α → Except ε β} {fault : ε}

/-! ## One after another -/

/-- What comes next has its turn only after a success. -/
theorem bind_eq_ok {b : β} (h : (x >>= g) = .ok b) : ∃ a, x = .ok a ∧ g a = .ok b := by
  cases x with
  | error fault => cases h
  | ok a => exact ⟨a, rfl, h⟩

/-- A fault comes from the first part, or from what comes next. -/
theorem bind_eq_error (h : (x >>= g) = .error fault) :
    x = .error fault ∨ ∃ a, x = .ok a ∧ g a = .error fault := by
  cases x with
  | error fault' =>
    cases h
    exact .inl rfl
  | ok a => exact .inr ⟨a, rfl, h⟩

/-- After a success, what comes next decides. -/
theorem bind_of_ok {a : α} (hx : x = .ok a) : (x >>= g) = g a := by
  rw [hx]
  rfl

/-- After a fault, nothing comes next. -/
theorem bind_of_error (hx : x = .error fault) : (x >>= g) = .error fault := by
  rw [hx]
  rfl

/-- What comes next gives a result if it has its turn and gives one. -/
theorem exists_bind_ok {a : α} (hx : x = .ok a) (hg : ∃ b, g a = .ok b) :
    ∃ b, (x >>= g) = .ok b := by
  rw [hx]
  exact hg

/-! ## Results and faults rewritten -/

/-- A result that is rewritten. -/
theorem exists_of_map_eq_ok {f : α → β} {b : β} (h : x.map f = .ok b) :
    ∃ a, x = .ok a ∧ f a = b := by
  cases x with
  | error fault => cases h
  | ok a => exact ⟨a, rfl, Except.ok.inj h⟩

/-- Where faults are rewritten, results stay. -/
theorem eq_ok_of_mapError {ε' : Type} {f : ε → ε'} {a : α} (h : x.mapError f = .ok a) :
    x = .ok a := by
  cases x with
  | error fault => cases h
  | ok b => exact congrArg Except.ok (Except.ok.inj h)

theorem eq_ok_of_toOption {a : α} (h : x.toOption = some a) : x = .ok a := by
  cases x with
  | error fault => cases h
  | ok b => exact congrArg Except.ok (Option.some.inj h)

/-! ## Lists -/

/-- The results of a list that is worked off without a fault. -/
theorem mapM_eq_ok {as : List α} {bs : List β} (h : as.mapM g = .ok bs) :
    List.Forall₂ (fun a b => g a = .ok b) as bs := by
  induction as generalizing bs with
  | nil =>
    cases h
    exact .nil
  | cons a as ih =>
    rw [List.mapM_cons] at h
    obtain ⟨b, hb, h⟩ := bind_eq_ok h
    obtain ⟨rest, hrest, h⟩ := bind_eq_ok h
    cases h
    exact .cons hb (ih hrest)

/-- A list that is worked off with a fault has an element with that fault. -/
theorem exists_of_mapM_eq_error {as : List α} (h : as.mapM g = .error fault) :
    ∃ a ∈ as, g a = .error fault := by
  induction as with
  | nil => cases h
  | cons a as ih =>
    rw [List.mapM_cons] at h
    rcases bind_eq_error h with ha | ⟨b, -, h⟩
    · exact ⟨a, List.mem_cons_self, ha⟩
    · rcases bind_eq_error h with hrest | ⟨bs, -, h⟩
      · obtain ⟨a', ha', hfault⟩ := ih hrest
        exact ⟨a', List.mem_cons_of_mem a ha', hfault⟩
      · cases h

/-- What holds of every single result holds of the results of a list. -/
theorem forall_mem_of_mapM_eq_some {f : α → Option β} {P : β → Prop} (hf : ∀ a b, f a =
    some b → P b)
    {as : List α} {bs : List β} (h : as.mapM f = some bs) : ∀ b ∈ bs, P b := by
  induction as generalizing bs with
  | nil =>
    cases h
    exact List.forall_mem_nil P
  | cons a as ih =>
    rw [List.mapM_cons] at h
    obtain ⟨b, hb, h⟩ := Option.bind_eq_some_iff.1 h
    obtain ⟨rest, hrest, h⟩ := Option.bind_eq_some_iff.1 h
    cases h
    exact List.forall_mem_cons.2 ⟨hf a b hb, ih hrest⟩

/-- What is on the right of related lists is related to something on the left. -/
theorem exists_mem_of_forall₂ {R : α → β → Prop} {as : List α} {bs : List β}
    (h : List.Forall₂ R as bs) {b : β} (hb : b ∈ bs) : ∃ a ∈ as, R a b := by
  induction h with
  | nil => cases hb
  | @cons a b' as bs hab _ ih =>
    rcases List.mem_cons.1 hb with rfl | hb
    · exact ⟨a, List.mem_cons_self, hab⟩
    · obtain ⟨a', ha', hab'⟩ := ih hb
      exact ⟨a', List.mem_cons_of_mem a ha', hab'⟩

end Conveyor
