import Conveyor.Value
import Mathlib.Data.List.Basic

/-!
# Kinds of values

What a field may hold, which texts some values hold, and which values can be written out.

- `Value.IsText`, `Value.IsString`, `Value.IsInteger`, and each of them or nothing.
- `Value.textsAmong`: the texts among some values.
- `Text.firstUnencodable`: the first text that cannot be written in UTF-8.
- `Value.Writable`: values without integers that are too long to be written out;
  `Value.writable_list`, `Value.writable_map`: all parts of such a value are such values.
-/

namespace Conveyor

/-- The first text that cannot be written in UTF-8. -/
def Text.firstUnencodable (ts : List Text) : Option Text := ts.find? fun t => t.string?.isNone

/-- Texts can all be written iff they are texts of characters. -/
theorem Text.firstUnencodable_eq_none {ts : List Text} :
    firstUnencodable ts = none ↔ ∀ t ∈ ts, ∃ s : String, t = s := by
  refine List.find?_eq_none.trans (forall₂_congr fun t _ => ?_)
  rw [Option.isNone_iff_eq_none, ← ne_eq, Option.ne_none_iff_exists']
  exact exists_congr fun s => string?_eq_some_iff

namespace Value

/-! ## Texts and integers -/

/-- A text. -/
def IsText (v : Value) : Prop := ∃ s, v = .text s

/-- A text of characters. -/
def IsString (v : Value) : Prop := ∃ s : String, v = .text s

/-- An integer. -/
def IsInteger (v : Value) : Prop := ∃ i, v = .int i

/-- A text, or nothing. -/
def IsTextOrNull (v : Value) : Prop := v = .null ∨ v.IsText

/-- A text of characters, or nothing. -/
def IsStringOrNull (v : Value) : Prop := v = .null ∨ v.IsString

/-- An integer, or nothing. -/
def IsIntegerOrNull (v : Value) : Prop := v = .null ∨ v.IsInteger

/-- The text that a value is, if it is one. -/
def text? : Value → Option Text
  | .text s => some s
  | _ => none

/-- The texts among some values. -/
def textsAmong (vs : List Value) : List Text := vs.filterMap text?

variable {v : Value} {vs : List Value} {s : Text}

theorem mem_textsAmong : s ∈ textsAmong vs ↔ .text s ∈ vs := by
  rw [textsAmong, List.mem_filterMap]
  refine ⟨?_, fun h => ⟨_, h, rfl⟩⟩
  rintro ⟨v, hv, hs⟩
  cases v <;> cases hs
  exact hv

theorem IsString.orNull (h : v.IsString) : v.IsStringOrNull := .inr h

/-- A text among values of which all texts can be written. -/
theorem IsText.isString (h : v.IsText) (hv : v ∈ vs)
    (hall : Text.firstUnencodable (textsAmong vs) = none) : v.IsString := by
  obtain ⟨t, rfl⟩ := h
  obtain ⟨s, rfl⟩ := Text.firstUnencodable_eq_none.1 hall t (mem_textsAmong.2 hv)
  exact ⟨s, rfl⟩

/-! ## Integers that can be written out -/

/-- A value without integers that are too long to be written out. -/
def Writable (v : Value) : Prop := v.hasUnwritable = false

instance (v : Value) : Decidable v.Writable := inferInstanceAs (Decidable (_ = false))

variable {es : List Entry}

theorem writable_list {xs : List Value} : (list xs).Writable ↔ ∀ x ∈ xs, x.Writable := by
  rw [Writable, hasUnwritable]
  induction xs with
  | nil => simp [anyUnwritable]
  | cons x xs ih => simp [anyUnwritable, Writable, ih]

theorem writable_map : (map es).Writable ↔ ∀ e ∈ es, e.1.Writable ∧ e.2.Writable := by
  rw [Writable, hasUnwritable]
  induction es with
  | nil => simp [entriesUnwritable]
  | cons e es ih =>
    obtain ⟨k, w⟩ := e
    rw [entriesUnwritable, List.forall_mem_cons, ← ih, Bool.or_eq_false_iff,
      Bool.or_eq_false_iff]
    rfl

theorem writable_set {xs : List Value} : (set xs).Writable ↔ ∀ x ∈ xs, x.Writable := by
  rw [← writable_list]
  simp only [Writable, hasUnwritable]

theorem writable_pair {a b : Value} : (pair a b).Writable ↔ a.Writable ∧ b.Writable := by
  simp only [Writable, hasUnwritable, Bool.or_eq_false_iff]

/-- An integer can be written out if it is not too long itself. -/
theorem Writable.isUnwritable {i : Int} (h : (int i).Writable) :
    (int i).isUnwritable = false := by
  unfold Writable hasUnwritable at h
  exact h

end Value

end Conveyor
