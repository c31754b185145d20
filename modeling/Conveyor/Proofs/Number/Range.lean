import Conveyor.Number.Binary64
import Mathlib.Algebra.Order.Ring.Int

/-!
# The range of the floating point format

An integer is rounded to a finite number up to half a unit past the greatest one; from there on
it is out of range.

- `Binary64.outOfRange`: the least integer out of range.
- `Binary64.isSome_ofInt?_iff`: **the integers in range are those nearer to zero**.
-/

namespace Conveyor.Binary64

/-- The least integer past the range of the format. It lies half a unit past the greatest finite
number, and a half goes to the even neighbour. -/
def outOfRange : Nat := 2 ^ 1024 - 2 ^ 970

/-- An integer has a significand of 53 bits, whether it has more bits of its own or fewer. -/
theorem exponentFor_one {n : Nat} (h : n ≠ 0) : exponentFor n 1 = (n.log2 : Int) - 52 := by
  have hlog : 2 ^ n.log2 ≤ n := Nat.log2_self_le h
  have hone : Nat.log2 1 = 0 := by decide
  have hlarge : (if 0 ≤ (n.log2 : Int) - 52 then
      decide (n < 1 * Nat.pow 2 (52 + ((n.log2 : Int) - 52).toNat))
    else decide (n * Nat.pow 2 (-((n.log2 : Int) - 52)).toNat < 1 * Nat.pow 2 52)) = false := by
    split
    · rename_i he
      have hexp : 52 + ((n.log2 : Int) - 52).toNat = n.log2 := by omega
      rw [hexp, one_mul, decide_eq_false_iff_not, not_lt]
      exact hlog
    · rename_i he
      have hexp : n.log2 + (-((n.log2 : Int) - 52)).toNat = 52 := by omega
      rw [one_mul, decide_eq_false_iff_not, not_lt, ← hexp]
      calc 2 ^ (n.log2 + (-((n.log2 : Int) - 52)).toNat)
          = 2 ^ n.log2 * 2 ^ (-((n.log2 : Int) - 52)).toNat := Nat.pow_add ..
        _ ≤ n * 2 ^ (-((n.log2 : Int) - 52)).toNat := Nat.mul_le_mul_right _ hlog
  have hleast : leastExponent ≤ (n.log2 : Int) - 52 := by
    unfold leastExponent
    omega
  simp only [exponentFor, hone, Nat.cast_zero, sub_zero, hlarge]
  exact max_eq_right hleast

/-- A rounded integer is in range if its exponent is. Rounding up to a power of two adds one to
it. -/
theorem isSome_ofInt?_iff_exponent {i : Int} (h : i.natAbs ≠ 0) :
    (ofInt? i).isSome ↔
      (if scaled i.natAbs 1 ((i.natAbs.log2 : Int) - 52) = 2 ^ 53 then (i.natAbs.log2 : Int) - 51
        else (i.natAbs.log2 : Int) - 52) ≤ greatestExponent := by
  have hcarry : (i.natAbs.log2 : Int) - 52 + 1 = (i.natAbs.log2 : Int) - 51 := by omega
  simp only [ofInt?, ofInt, ofRatio, if_neg h, exponentFor_one h, Nat.pow_eq, hcarry]
  by_cases htop : scaled i.natAbs 1 ((i.natAbs.log2 : Int) - 52) = 2 ^ 53
  · rw [if_pos htop, if_pos htop]
    by_cases hexp : greatestExponent < (i.natAbs.log2 : Int) - 51
    · simp [if_pos hexp, not_le.2 hexp]
    · simp [if_neg hexp, not_lt.1 hexp]
  · rw [if_neg htop, if_neg htop]
    by_cases hexp : greatestExponent < (i.natAbs.log2 : Int) - 52
    · simp [if_pos hexp, not_le.2 hexp]
    · simp [if_neg hexp, not_lt.1 hexp]

theorem scaled_one (n k : Nat) : scaled n 1 (k : Int) = roundQuotient n (2 ^ k) := by
  rw [scaled, if_pos (Int.natCast_nonneg k), Int.toNat_natCast, Nat.one_mul]
  rfl

/-- Just below a power of two a quotient is rounded up to it if no more than half a unit is
missing. -/
theorem roundQuotient_eq_top_iff {n half : Nat} (hn : n < 2 ^ 53 * (2 * half)) :
    roundQuotient n (2 * half) = 2 ^ 53 ↔ 2 ^ 53 * (2 * half) - half ≤ n := by
  have hsum : 2 * half * (n / (2 * half)) + n % (2 * half) = n := Nat.div_add_mod n (2 * half)
  have hmod : n % (2 * half) < 2 * half := Nat.mod_lt n (by omega)
  have hquot : n / (2 * half) < 2 ^ 53 := Nat.div_lt_of_lt_mul (by rwa [Nat.mul_comm] at hn)
  simp only [roundQuotient]
  generalize n / (2 * half) = q at *
  generalize n % (2 * half) = r at *
  rcases Nat.lt_or_eq_of_le (Nat.le_sub_one_of_lt hquot) with hq | rfl
  · -- The quotient is at least one unit too small, so one more does not reach the power of two.
    have hfar : 2 * half * (q + 1) ≤ 2 * half * (2 ^ 53 - 1) := Nat.mul_le_mul_left _ hq
    rw [Nat.mul_add] at hfar
    constructor
    · intro h
      split at h <;> [skip; split at h <;> [skip; split at h]] <;> omega
    · intro h
      omega
  · -- The quotient is odd, so a half is rounded up.
    constructor
    · intro h
      split at h <;> omega
    · intro h
      rw [if_neg (by omega)]
      split <;> [rfl; (rw [if_neg (by decide)]; rfl)]

/-- **The integers in range are those below the least one out of range**, with either sign. -/
theorem isSome_ofInt?_iff (i : Int) : (ofInt? i).isSome ↔ i.natAbs < outOfRange := by
  by_cases h : i.natAbs = 0
  · rw [Int.natAbs_eq_zero] at h
    subst h
    have hunit : 2 ^ 970 < 2 ^ 1024 := by
      rw [Nat.pow_lt_pow_iff_right (by decide)]
      decide
    have hrange : 0 < outOfRange := by
      rw [outOfRange]
      omega
    exact iff_of_true rfl hrange
  have hlow : 2 ^ i.natAbs.log2 ≤ i.natAbs := Nat.log2_self_le h
  have hhigh : i.natAbs < 2 ^ (i.natAbs.log2 + 1) := Nat.lt_log2_self
  rw [isSome_ofInt?_iff_exponent h]
  rcases Nat.lt_trichotomy i.natAbs.log2 1023 with hlog | hlog | hlog
  · have hsmall : i.natAbs < 2 ^ 1023 := by
      refine hhigh.trans_le ?_
      rw [Nat.pow_le_pow_iff_right (by decide)]
      exact hlog
    have hrange : 2 ^ 1023 ≤ outOfRange := by
      have hunit : 2 ^ 970 ≤ 2 ^ 1023 := by
        rw [Nat.pow_le_pow_iff_right (by decide)]
        decide
      have hdouble : 2 ^ 1024 = 2 * 2 ^ 1023 := by rw [← Nat.pow_succ']
      rw [outOfRange, hdouble]
      omega
    refine iff_of_true ?_ (hsmall.trans_le hrange)
    unfold greatestExponent
    split <;> omega
  · have hsplit : ∀ k m n : Nat, k = m + (n + 1) → 2 ^ k = 2 ^ m * (2 * 2 ^ n) := by
      rintro k m n rfl
      rw [Nat.pow_add, Nat.pow_succ']
    have hbinade : 2 ^ 1024 = 2 ^ 53 * (2 * 2 ^ 970) := hsplit 1024 53 970 rfl
    have hexp : (i.natAbs.log2 : Int) - 52 = (971 : Nat) := by omega
    have hunit : 2 ^ 971 = 2 * 2 ^ 970 := by rw [← Nat.pow_succ']
    rw [hlog, hsplit (1023 + 1) 53 970 rfl] at hhigh
    have htop := roundQuotient_eq_top_iff hhigh
    rw [← hunit, ← scaled_one, ← hexp, hunit, ← hbinade, ← outOfRange] at htop
    rw [← not_le, ← htop]
    unfold greatestExponent
    split
    · rename_i hround
      exact iff_of_false (by omega) (not_not.2 hround)
    · rename_i hround
      exact iff_of_true (by omega) hround
  · have hlarge : 2 ^ 1024 ≤ i.natAbs := by
      refine le_trans ?_ hlow
      rw [Nat.pow_le_pow_iff_right (by decide)]
      exact hlog
    have hrange : outOfRange ≤ 2 ^ 1024 := Nat.sub_le _ _
    refine iff_of_false ?_ (not_lt.2 (hrange.trans hlarge))
    unfold greatestExponent
    split <;> omega

end Conveyor.Binary64
