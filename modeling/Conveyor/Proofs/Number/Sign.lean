import Conveyor.Number.Reading
import Mathlib.Algebra.Order.Ring.Int

/-!
# Positive numbers

A number is above zero, or it is zero or less, or it is no number at all; the undefined number is
the only one that is neither. Rounding may turn a positive quotient into zero, but only below the
least positive number, and no number of the format lies between the two: the finite numbers are
multiples of the least one.

- `Binary64.IsPositive`: above zero.
- `Binary64.isNonPositive_eq_false_iff`: **what is not zero or less is above zero, or is no
  number**.
- `Binary64.OnGrid`: a multiple of the least positive number, as are all finite numbers of the
  format.
- `Binary64.isPositive_ofRatio`: a quotient that reaches the least positive number is rounded to
  one above zero.
- `Binary64.IsPositive.mul_of_one_le`: a positive number stays positive when it is multiplied by
  one or more.
- `onGrid_readFloat?`: whatever is read as a number is on the grid.
-/

namespace Conveyor

namespace Binary64

variable {x y : Binary64}

/-! ## The sign of a number -/

/-- Is the number above zero? The undefined number is not. -/
def IsPositive (x : Binary64) : Prop := x.compareInt 0 = some .gt

instance : DecidablePred IsPositive :=
  fun x => inferInstanceAs (Decidable (x.compareInt 0 = some .gt))

theorem inUnits_zero (e f : Int) : inUnits false 0 e f = 0 := by
  simp [inUnits]

theorem inUnits_pos_iff {negative : Bool} {m : Nat} {e f : Int} :
    0 < inUnits negative m e f ↔ negative = false ∧ 0 < m := by
  have hunit : 0 < 2 ^ (e - f).toNat := Nat.two_pow_pos _
  cases negative with
  | false => simp [inUnits]
  | true =>
    simp only [inUnits, if_true, Bool.true_eq_false, false_and, iff_false]
    omega

theorem isPositive_finite_iff {negative : Bool} {m : Nat} {e : Int} :
    (finite negative m e).IsPositive ↔ negative = false ∧ 0 < m := by
  rw [← inUnits_pos_iff (e := e) (f := min e 0), IsPositive]
  simp only [compareInt, Int.natAbs_zero, Int.lt_irrefl, decide_false, inUnits_zero,
      Option.some.injEq,
    compareOfLessAndEq]
  split
  · simp only [reduceCtorEq, false_iff]
    omega
  · split
    · simp only [reduceCtorEq, false_iff]
      omega
    · simp only [true_iff]
      omega

theorem isPositive_infinity_iff {negative : Bool} : (infinity negative).IsPositive ↔
    negative = false := by
  cases negative <;> decide

theorem not_isPositive_nan : ¬ nan.IsPositive := by
  decide

/-- **A number that is not zero or less is above zero, or it is no number.** The undefined number
has no place in the order, so a test for zero or less lets it pass. -/
theorem isNonPositive_eq_false_iff : x.isNonPositive = false ↔ x.IsPositive ∨ x = nan := by
  cases x with
  | nan => decide
  | infinity negative => cases negative <;> decide
  | finite negative m e =>
    rw [IsPositive, isNonPositive]
    cases h : (finite negative m e).compareInt 0 with
    | none => cases h
    | some order => cases order <;> simp

/-! ## Rounding -/

theorem one_le_roundQuotient {num den : Nat} (hden : 0 < den) (h : den ≤ num) :
    1 ≤ roundQuotient num den := by
  have hquot : 1 ≤ num / den := (Nat.one_le_div_iff hden).2 h
  simp only [roundQuotient]
  split <;> [skip; split <;> [skip; split]] <;> omega

/-- A quotient of at least one unit is rounded to at least one. -/
theorem one_le_scaled {num den : Nat} {e : Int} (hden : 0 < den)
    (h : den * 2 ^ e.toNat ≤ num * 2 ^ (-e).toNat) : 1 ≤ scaled num den e := by
  unfold scaled
  split
  · rename_i he
    have hnone : (-e).toNat = 0 := by omega
    rw [hnone, Nat.pow_zero, Nat.mul_one] at h
    exact one_le_roundQuotient (Nat.mul_pos hden (Nat.two_pow_pos _)) h
  · rename_i he
    have hnone : e.toNat = 0 := by omega
    rw [hnone, Nat.pow_zero, Nat.mul_one] at h
    exact one_le_roundQuotient hden h

/-- A unit with fewer binary places than the quotient has does not exceed it. -/
theorem unit_le_of_log2 {num den : Nat} {e : Int} (hnum : num ≠ 0)
    (he : e ≤ (num.log2 : Int) - den.log2 - 1) : den * 2 ^ e.toNat ≤ num * 2 ^ (-e).toNat := by
  have hhigh : den < 2 ^ (den.log2 + 1) := Nat.lt_log2_self
  have hlow : 2 ^ num.log2 ≤ num := Nat.log2_self_le hnum
  calc den * 2 ^ e.toNat
      ≤ 2 ^ (den.log2 + 1) * 2 ^ e.toNat := Nat.mul_le_mul_right _ hhigh.le
    _ = 2 ^ (den.log2 + 1 + e.toNat) := (Nat.pow_add ..).symm
    _ ≤ 2 ^ (num.log2 + (-e).toNat) := Nat.pow_le_pow_right (by decide) (by omega)
    _ = 2 ^ num.log2 * 2 ^ (-e).toNat := by rw [Nat.pow_add]
    _ ≤ num * 2 ^ (-e).toNat := Nat.mul_le_mul_right _ hlow

/-- The exponent of a quotient is that of its 53 bits, or a greater one if that is the least of
the format. -/
theorem exponentFor_le (num den : Nat) :
    leastExponent ≤ exponentFor num den ∧
      (exponentFor num den = leastExponent ∨
        exponentFor num den ≤ (num.log2 : Int) - den.log2 - 52) := by
  simp only [exponentFor]
  constructor
  · exact le_max_left _ _
  · split <;> omega

/-- A quotient is rounded to an infinity, or to a number whose significand is that of the
quotient, but for a carry into the next exponent. -/
theorem ofRatio_cases (negative : Bool) {num : Nat} (den : Nat) (hnum : num ≠ 0) :
    ofRatio negative num den = infinity negative ∨
      ∃ m e, ofRatio negative num den = finite negative m e ∧ leastExponent ≤ e ∧
        (1 ≤ scaled num den (exponentFor num den) → 0 < m) := by
  have hleast := (exponentFor_le num den).1
  simp only [ofRatio, if_neg hnum]
  split
  · by_cases hlarge : greatestExponent < exponentFor num den + 1
    · exact .inl (if_pos hlarge)
    · exact .inr ⟨_, _, if_neg hlarge, by omega, fun _ => Nat.two_pow_pos _⟩
  · by_cases hlarge : greatestExponent < exponentFor num den
    · exact .inl (if_pos hlarge)
    · exact .inr ⟨_, _, if_neg hlarge, hleast, id⟩

/-- **A quotient that reaches the least positive number is rounded to a number above zero.** -/
theorem isPositive_ofRatio {num den : Nat} (hden : 0 < den) (hnum : num ≠ 0)
    (hleast : den ≤ num * 2 ^ (-leastExponent).toNat) : (ofRatio false num den).IsPositive := by
  have hunit : den * 2 ^ (exponentFor num den).toNat ≤
      num * 2 ^ (-exponentFor num den).toNat := by
    obtain hexp | hexp := (exponentFor_le num den).2
    · have hnone : leastExponent.toNat = 0 := rfl
      rwa [hexp, hnone, Nat.pow_zero, Nat.mul_one]
    · exact unit_le_of_log2 hnum (by omega)
  obtain hinfinite | ⟨m, e, hfinite, -, hm⟩ := ofRatio_cases false den hnum
  · rw [hinfinite]
    exact isPositive_infinity_iff.2 rfl
  · rw [hfinite]
    exact isPositive_finite_iff.2 ⟨rfl, hm (one_le_scaled hden hunit)⟩

/-- A positive multiple of a power of two that reaches the least positive number is rounded above
zero. -/
theorem isPositive_ofRatio_ratio {m : Nat} {e : Int} (hm : 2 ^ (leastExponent - e).toNat ≤ m) :
    (ofRatio false (ratio m e).1 (ratio m e).2).IsPositive := by
  have hpos : m ≠ 0 := Nat.pos_iff_ne_zero.1 ((Nat.two_pow_pos _).trans_le hm)
  unfold ratio
  split
  · have hnum : m * Nat.pow 2 e.toNat ≠ 0 := Nat.mul_ne_zero hpos (Nat.two_pow_pos _).ne'
    refine isPositive_ofRatio Nat.one_pos hnum ?_
    exact Nat.mul_pos (Nat.pos_of_ne_zero hnum) (Nat.two_pow_pos _)
  · rename_i he
    refine isPositive_ofRatio (Nat.two_pow_pos _) hpos ?_
    calc 2 ^ (-e).toNat
        ≤ 2 ^ ((leastExponent - e).toNat + (-leastExponent).toNat) :=
          Nat.pow_le_pow_right (by decide) (by unfold leastExponent; omega)
      _ = 2 ^ (leastExponent - e).toNat * 2 ^ (-leastExponent).toNat := by rw [Nat.pow_add]
      _ ≤ m * 2 ^ (-leastExponent).toNat := Nat.mul_le_mul_right _ hm

/-- A positive integer is rounded to a positive number. -/
theorem isPositive_ofInt {i : Int} (h : 0 < i) : (ofInt i).IsPositive := by
  have hsign : decide (i < 0) = false := by
    rw [decide_eq_false_iff_not]
    omega
  rw [ofInt, hsign]
  refine isPositive_ofRatio Nat.one_pos (by omega) ?_
  exact Nat.mul_pos (by omega) (Nat.two_pow_pos _)

/-! ## Numbers on the grid -/

/-- Is a finite number a multiple of the least positive number? Each number of the format is. -/
def OnGrid : Binary64 → Prop
  | finite _ _ e => leastExponent ≤ e
  | _ => True

theorem onGrid_nan : nan.OnGrid := trivial

theorem onGrid_infinity (negative : Bool) : (infinity negative).OnGrid := trivial

theorem onGrid_zero : zero.OnGrid := le_refl leastExponent

theorem onGrid_ofRatio (negative : Bool) (num den : Nat) :
    (ofRatio negative num den).OnGrid := by
  by_cases hnum : num = 0
  · rw [ofRatio, if_pos hnum]
    exact le_refl leastExponent
  · obtain hinfinite | ⟨m, e, hfinite, he, -⟩ := ofRatio_cases negative den hnum
    · rw [hinfinite]
      trivial
    · rw [hfinite]
      exact he

theorem onGrid_ofSigned (zeroSign : Bool) (num : Int) (den : Nat) :
    (ofSigned zeroSign num den).OnGrid := by
  unfold ofSigned
  split
  · exact le_refl leastExponent
  · exact onGrid_ofRatio ..

theorem onGrid_ofDecimal (negative : Bool) (digits : Nat) (exponent : Int) :
    (ofDecimal negative digits exponent).OnGrid := by
  unfold ofDecimal
  dsimp only
  split
  · exact le_refl leastExponent
  split
  · trivial
  split
  · exact le_refl leastExponent
  split
  · exact onGrid_ofRatio ..
  · exact onGrid_ofRatio ..

theorem onGrid_add (x y : Binary64) : (x.add y).OnGrid := by
  unfold add
  split
  · trivial
  · trivial
  · split <;> trivial
  · trivial
  · trivial
  · exact onGrid_ofSigned ..

theorem OnGrid.neg (h : x.OnGrid) : x.neg.OnGrid := by
  cases x <;> exact h

/-- **A positive number stays positive when it is multiplied by one or more.** A number that is
not on the grid may be so small that the product is rounded to zero. -/
theorem IsPositive.mul_of_one_le {n : Nat} {f : Int} (hx : x.IsPositive) (hgrid : x.OnGrid)
    (hn : 2 ^ (-f).toNat ≤ n) : (x.mul (finite false n f)).IsPositive := by
  cases x with
  | nan => exact absurd hx not_isPositive_nan
  | infinity negative =>
    have hpos : n ≠ 0 := Nat.pos_iff_ne_zero.1 ((Nat.two_pow_pos _).trans_le hn)
    rw [isPositive_infinity_iff.1 hx, mul, if_neg hpos]
    exact isPositive_infinity_iff.2 rfl
  | finite negative m e =>
    obtain ⟨rfl, hm⟩ := isPositive_finite_iff.1 hx
    refine isPositive_ofRatio_ratio ?_
    calc 2 ^ (leastExponent - (e + f)).toNat
        ≤ 2 ^ (-f).toNat := Nat.pow_le_pow_right (by decide) (by unfold OnGrid at hgrid; omega)
      _ ≤ n := hn
      _ ≤ m * n := Nat.le_mul_of_pos_left n hm

end Binary64

/-! ## Numbers that are read -/

theorem onGrid_readUnsigned? {negative : Bool} {cs : List CodePoint} {x : Binary64}
    (h : readUnsigned? negative cs = some x) : x.OnGrid := by
  unfold readUnsigned? at h
  generalize digitRun 0 0 cs = run at h
  obtain ⟨whole, wholeCount, rest⟩ := run
  dsimp only at h
  -- With a fraction and without one.
  split at h <;>
  · dsimp only at h
    split at h
    · cases h
    · obtain ⟨exponent, -, rfl⟩ := Option.map_eq_some_iff.1 h
      exact Binary64.onGrid_ofDecimal ..

/-- Whatever is read as a number is on the grid. -/
theorem onGrid_readFloat? {cs : List CodePoint} {x : Binary64} (h : readFloat? cs = some x) :
    x.OnGrid := by
  unfold readFloat? at h
  dsimp only at h
  split at h
  · cases h
    trivial
  split at h
  · cases h
    trivial
  · exact onGrid_readUnsigned? h

end Conveyor
