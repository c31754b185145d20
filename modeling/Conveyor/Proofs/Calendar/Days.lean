import Conveyor.Proofs.Calendar.Reading

/-!
# The days of the calendar

The clock of a run counts microseconds. Each count from the first day of year 1 to the last day
of year 9999 stands for a point in time that exists.

- `Date.check_ofOrdinal`: **each number of a day is a day of the calendar**.
- `Stamp.valid_ofMicros`: **each count of microseconds in the calendar is a point in time that
  exists**.
-/

namespace Conveyor

namespace Date

/-- The days from a month on, for a number of months. -/
def daysFrom (y : Nat) : (months m : Nat) → Nat
  | 0, _ => 0
  | months + 1, m => daysInMonth y m + daysFrom y months (m + 1)

/-- The months of a year together. -/
theorem daysFrom_year (y : Nat) : daysFrom y 12 1 = if isLeapYear y then 366 else 365 := by
  by_cases h : isLeapYear y <;> simp [daysFrom, daysInMonth, h]

/-- A day of a year lies in one of its months. -/
theorem ofDayOfYear_spec {y months m n : Nat} (hm : 1 ≤ m) (hlast : m + months = 13)
    (hn : n < daysFrom y months m) :
    (ofDayOfYear y months m n).year = y ∧ 1 ≤ (ofDayOfYear y months m n).month ∧
      (ofDayOfYear y months m n).month ≤ 12 ∧ 1 ≤ (ofDayOfYear y months m n).day ∧
      (ofDayOfYear y months m n).day ≤ daysInMonth y (ofDayOfYear y months m n).month := by
  induction months generalizing m n with
  | zero => cases hn
  | succ months ih =>
    rw [ofDayOfYear]
    split
    · next hlt => exact ⟨rfl, hm, by dsimp only; omega, by dsimp only; omega, hlt⟩
    · next hge =>
      rw [daysFrom] at hn
      exact ih (by omega) (by omega) (by omega)

/-- How many days the calendar has. -/
def lastOrdinal : Nat := 3652059

/-- **Each number of a day is a day of the calendar.** -/
theorem check_ofOrdinal {n : Nat} (hfirst : 1 ≤ n) (hlast : n ≤ lastOrdinal) :
    (ofOrdinal n).check = .ok (ofOrdinal n) := by
  have hlast : n ≤ 3652059 := hlast
  unfold ofOrdinal
  dsimp only
  -- The number of the day within its cycles of 400, 100, 4 and single years.
  generalize hr : (n - 1) % 146097 = r
  generalize hc : min 3 (r / 36524) = c
  generalize hq : (r - c * 36524) / 1461 = q
  generalize hs : (r - c * 36524) % 1461 = s
  generalize ha : min 3 (s / 365) = a
  generalize hy : (n - 1) / 146097 * 400 + c * 100 + q * 4 + a + 1 = y
  have hyear : 1 ≤ y ∧ y ≤ 9999 := by omega
  -- Only a leap year has a day with the number 365, counted from zero.
  have hday : s - a * 365 < daysFrom y 12 1 := by
    rw [daysFrom_year]
    split
    · omega
    · next hleap =>
      have hleap : ¬(y % 4 = 0 ∧ (y % 100 ≠ 0 ∨ y % 400 = 0)) := by
        simpa [isLeapYear] using hleap
      omega
  obtain ⟨hy', hm, hm', hd, hd'⟩ := ofDayOfYear_spec (Nat.le_refl 1) rfl hday
  unfold check
  rw [hy']
  simp only [Bool.or_eq_true, decide_eq_true_eq]
  rw [if_neg (by omega), if_neg (by omega), if_neg (by omega)]

end Date

/-- **Each count of microseconds in the calendar is a point in time that exists.** -/
theorem Stamp.valid_ofMicros {n : Nat} (hfirst : microsPerDay ≤ n)
    (hlast : n < (Date.lastOrdinal + 1) * microsPerDay) : (Stamp.ofMicros n).Valid := by
  simp only [microsPerDay, microsPerSecond, Date.lastOrdinal] at hfirst hlast
  refine ⟨Date.check_ofOrdinal ?_ ?_, ?_, ?_, ?_, ?_, ?_⟩
  all_goals simp only [ofMicros, microsPerSecond, microsPerDay, Date.lastOrdinal]
  · omega
  · omega
  · omega
  · omega
  · omega
  · omega
  · rintro o ⟨⟩
    decide

end Conveyor
