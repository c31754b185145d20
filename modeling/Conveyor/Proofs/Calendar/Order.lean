import Conveyor.Proofs.Calendar.Reading

/-!
# The order of written times

Points in time are kept as texts and compared as texts. In universal time the order of the texts
is the order of the points in time, although a fraction of a second is left out if it is zero.

- `Iso.padded_append_lt_iff`: numbers of fixed width are compared as numbers, and then what
  follows them.
- `Date.Before`, `Date.ordinal_lt_iff`: days of the calendar by year, month and day.
- `Stamp.Before`: points in time by all their fields; `Stamp.text_lt_iff`,
  `Stamp.localMicros_lt_iff`.
- `Stamp.toList_text_lt_iff`: **the order of the texts is that of the points in time**.
-/

namespace Conveyor

/-! ## Texts -/

/-- Where the beginnings have the same length, the ends count only if the beginnings are the
same. -/
theorem append_lt_append_iff {as bs xs ys : List Char} (h : as.length = bs.length) :
    as ++ xs < bs ++ ys ↔ as < bs ∨ as = bs ∧ xs < ys := by
  induction as generalizing bs with
  | nil =>
    obtain rfl := List.length_eq_zero_iff.1 h.symm
    simp
  | cons a as ih =>
    cases bs with
    | nil => cases h
    | cons b bs =>
      rw [List.cons_append, List.cons_append, List.cons_lt_cons_iff, List.cons_lt_cons_iff,
        ih (Nat.succ.inj h), List.cons.injEq, and_or_left, or_assoc, and_assoc]

/-- What is the same at the beginning does not count. -/
theorem cons_lt_cons_self_iff {c : Char} {xs ys : List Char} : c :: xs < c :: ys ↔ xs < ys := by
  rw [List.cons_lt_cons_iff]
  simp

namespace Iso

theorem digitChar_lt_iff {k l : Nat} (hk : k < 10) (hl : l < 10) : k.digitChar < l.digitChar ↔
    k < l := by
  have hall : ∀ k l : Fin 10, (k : Nat).digitChar < (l : Nat).digitChar ↔
    (k : Nat) < l := by decide
  exact hall ⟨k, hk⟩ ⟨l, hl⟩

variable {width m n : Nat} {xs ys : List Char}

/-- Different numbers are written differently. -/
theorem padded_inj (hm : m < 10 ^ width) (hn : n < 10 ^ width) :
    padded width m = padded width n ↔ m = n := by
  refine ⟨fun h => ?_, fun h => h ▸ rfl⟩
  have hread := digits?_padded hm 0 []
  rw [h, digits?_padded hn 0 []] at hread
  simpa using congrArg Prod.fst (Option.some.inj hread.symm)

/-- Numbers of fixed width are compared as numbers. -/
theorem padded_lt_iff (hm : m < 10 ^ width) (hn : n < 10 ^ width) :
    padded width m < padded width n ↔ m < n := by
  induction width generalizing m n with
  | zero =>
    obtain rfl : m = 0 := by simpa using hm
    obtain rfl : n = 0 := by simpa using hn
    simp [padded]
  | succ width ih =>
    have hm' : m / 10 < 10 ^ width := Nat.div_lt_of_lt_mul (by rwa [Nat.pow_succ'] at hm)
    have hn' : n / 10 < 10 ^ width := Nat.div_lt_of_lt_mul (by rwa [Nat.pow_succ'] at hn)
    have hdigits : [(m % 10).digitChar] < [(n % 10).digitChar] ↔ m % 10 < n % 10 := by
      rw [List.cons_lt_cons_iff, digitChar_lt_iff (Nat.mod_lt m (by decide))
        (Nat.mod_lt n (by decide))]
      simp
    rw [padded, padded, append_lt_append_iff (by rw [length_padded, length_padded]), ih hm' hn',
      padded_inj hm' hn', hdigits]
    omega

/-- **Numbers of fixed width are compared as numbers**, and then what follows them. -/
theorem padded_append_lt_iff (hm : m < 10 ^ width) (hn : n < 10 ^ width) :
    padded width m ++ xs < padded width n ++ ys ↔ m < n ∨ m = n ∧ xs < ys := by
  rw [append_lt_append_iff (by rw [length_padded, length_padded]), padded_lt_iff hm hn,
    padded_inj hm hn]

end Iso

/-! ## Days -/

/-- The length of a year. -/
def daysInYear (y : Nat) : Nat := if isLeapYear y then 366 else 365

theorem daysBeforeYear_succ {y : Nat} (hy : 1 ≤ y) :
    daysBeforeYear (y + 1) = daysBeforeYear y + daysInYear y := by
  obtain ⟨p, rfl⟩ := Nat.exists_eq_add_of_le' hy
  have hleap : isLeapYear (p + 1) = true ↔ 4 ∣ p + 1 ∧ (¬100 ∣ p + 1 ∨ 400 ∣ p + 1) := by
    simp [isLeapYear, Nat.dvd_iff_mod_eq_zero]
  have hcycles : (100 ∣ p + 1 → 4 ∣ p + 1) ∧ (400 ∣ p + 1 → 100 ∣ p + 1) :=
    ⟨Nat.dvd_trans (by decide), Nat.dvd_trans (by decide)⟩
  have hle : p / 100 ≤ p / 4 := Nat.div_le_div_left (by decide) (by decide)
  unfold daysInYear daysBeforeYear
  dsimp only
  rw [Nat.add_sub_cancel, Nat.add_sub_cancel, Nat.succ_div (b := 4), Nat.succ_div (b := 100),
    Nat.succ_div (b := 400)]
  simp only [hleap]
  -- The quotients cancel, and what is left is which of the three cycles begins.
  generalize p / 4 = leaps at *
  generalize p / 100 = hundreds at *
  by_cases hfour : 4 ∣ p + 1
  · by_cases hhundred : 100 ∣ p + 1
    · by_cases hcycle : 400 ∣ p + 1
      · simp only [hfour, hhundred, hcycle, if_true, not_true, or_true, and_true]
        omega
      · simp only [hfour, hhundred, hcycle, if_true, if_false, not_true, or_false, and_false]
        omega
    · have hcycle := mt hcycles.2 hhundred
      simp only [hfour, hhundred, hcycle, if_true, if_false, not_false_eq_true, true_or,
        and_true]
      omega
  · have hhundred := mt hcycles.1 hfour
    have hcycle := mt hcycles.2 hhundred
    simp only [hfour, hhundred, hcycle, if_false, false_and]
    omega

theorem daysBeforeMonth_succ (y : Nat) {m : Nat} (hm : 1 ≤ m) :
    daysBeforeMonth y (m + 1) = daysBeforeMonth y m + daysInMonth y m := by
  obtain ⟨m, rfl⟩ := Nat.exists_eq_add_of_le' hm
  simp [daysBeforeMonth, List.range_succ]

/-- A month is over before any later one. -/
theorem daysBeforeMonth_add_le (y : Nat) {m n : Nat} (hm : 1 ≤ m) (h : m < n) :
    daysBeforeMonth y m + daysInMonth y m ≤ daysBeforeMonth y n := by
  induction h with
  | refl => exact Nat.le_of_eq (daysBeforeMonth_succ y hm).symm
  | @step n hn ih =>
    rw [Nat.succ_eq_add_one, daysBeforeMonth_succ y (Nat.le_trans hm (Nat.le_of_succ_le hn))]
    exact Nat.le_add_right_of_le ih

theorem daysBeforeMonth_year (y : Nat) : daysBeforeMonth y 13 = daysInYear y := by
  by_cases h : isLeapYear y <;> simp [daysBeforeMonth, List.range_succ, daysInMonth,
    daysInYear, h]

/-- A year is over before any later one. -/
theorem daysBeforeYear_add_le {y z : Nat} (hy : 1 ≤ y) (h : y < z) :
    daysBeforeYear y + daysInYear y ≤ daysBeforeYear z := by
  induction h with
  | refl => exact Nat.le_of_eq (daysBeforeYear_succ hy).symm
  | @step z hz ih =>
    rw [Nat.succ_eq_add_one, daysBeforeYear_succ (Nat.le_trans hy (Nat.le_of_succ_le hz))]
    exact Nat.le_add_right_of_le ih

namespace Date

/-- A day comes before another by its year, its month or its day. -/
def Before (d e : Date) : Prop :=
  d.year < e.year ∨ d.year = e.year ∧ (d.month < e.month ∨ d.month = e.month ∧ d.day < e.day)

theorem before_trichotomy (d e : Date) : d.Before e ∨ d = e ∨ e.Before d := by
  obtain ⟨y, m, n⟩ := d
  obtain ⟨y', m', n'⟩ := e
  simp only [Before, Date.mk.injEq]
  omega

theorem not_before_self (d : Date) : ¬ d.Before d := by
  unfold Before
  omega

variable {d e : Date}

/-- The fields of a day that exists. -/
theorem bounds_of_check (h : d.check = .ok d) :
    1 ≤ d.year ∧ 1 ≤ d.month ∧ d.month ≤ 12 ∧ 1 ≤ d.day ∧
    d.day ≤ daysInMonth d.year d.month := by
  unfold check at h
  split at h
  · cases h
  · split at h
    · cases h
    · split at h
      · cases h
      · simp only [Bool.or_eq_true, decide_eq_true_eq, not_or] at *
        omega

/-- A day is one of its year. -/
theorem ordinal_bounds (h : d.check = .ok d) :
    daysBeforeYear d.year < d.ordinal ∧
    d.ordinal ≤ daysBeforeYear d.year + daysInYear d.year := by
  obtain ⟨-, hmonth, hlast, hday, hdays⟩ := bounds_of_check h
  have hover := daysBeforeMonth_add_le d.year hmonth (Nat.lt_succ_of_le hlast)
  rw [daysBeforeMonth_year] at hover
  unfold ordinal
  omega

/-- Days are numbered in their order. -/
theorem ordinal_lt_of_before (hd : d.check = .ok d) (he : e.check = .ok e) (h : d.Before e) :
    d.ordinal < e.ordinal := by
  obtain ⟨hyear, hmonth, -, hday, hdays⟩ := bounds_of_check hd
  have heday := (bounds_of_check he).2.2.2.1
  rcases h with hlt | ⟨heq, hlt | ⟨hmeq, hlt⟩⟩
  · have hover := daysBeforeYear_add_le hyear hlt
    have hdlast := (ordinal_bounds hd).2
    have hefirst := (ordinal_bounds he).1
    omega
  · have hover := daysBeforeMonth_add_le d.year hmonth hlt
    unfold ordinal
    rw [← heq]
    omega
  · unfold ordinal
    rw [← heq, ← hmeq]
    omega

/-- **Days are numbered in their order.** -/
theorem ordinal_lt_iff (hd : d.check = .ok d) (he : e.check = .ok e) :
    d.ordinal < e.ordinal ↔ d.Before e := by
  refine ⟨fun hlt => ?_, ordinal_lt_of_before hd he⟩
  rcases before_trichotomy d e with h | rfl | h
  · exact h
  · exact absurd hlt (Nat.lt_irrefl _)
  · exact absurd (ordinal_lt_of_before he hd h) (Nat.lt_asymm hlt)

end Date

/-! ## Points in time -/

namespace Stamp

/-- A point in time comes before another, by the first field in which they differ. -/
def Before (a b : Stamp) : Prop :=
  a.date.Before b.date ∨ a.date = b.date ∧
    (a.hour < b.hour ∨ a.hour = b.hour ∧ (a.minute < b.minute ∨ a.minute = b.minute ∧
      (a.second < b.second ∨ a.second = b.second ∧ a.micro < b.micro)))

variable {a b : Stamp}

/-- Points in time are counted in their order. -/
theorem localMicros_lt_iff (ha : a.Valid) (hb : b.Valid) : a.localMicros < b.localMicros ↔
    a.Before b := by
  have hlt := Date.ordinal_lt_iff ha.date hb.date
  have hgt := Date.ordinal_lt_iff hb.date ha.date
  obtain ⟨-, hah, ham, has, hau, -⟩ := ha
  obtain ⟨-, hbh, hbm, hbs, hbu, -⟩ := hb
  unfold Before localMicros
  simp only [microsPerSecond] at *
  rcases Date.before_trichotomy a.date b.date with h | h | h
  · refine iff_of_true ?_ (.inl h)
    have hdays := hlt.2 h
    omega
  · rw [h, or_iff_right (Date.not_before_self b.date), and_iff_right rfl]
    omega
  · refine iff_of_false ?_ ?_
    · have hdays := hgt.2 h
      omega
    · rintro (hbefore | ⟨heq, -⟩)
      · exact Nat.lt_asymm (hlt.2 hbefore) (hgt.2 h)
      · exact Date.not_before_self b.date (heq ▸ h)

/-- The end of the written form, after the seconds. -/
def endChars (t : Stamp) : List Char :=
  (if t.micro = 0 then [] else '.' :: Iso.padded 6 t.micro) ++ t.zoneChars

theorem chars_form (t : Stamp) :
    t.form.chars ++ t.zoneChars = Iso.padded 2 t.hour ++ ':' :: (Iso.padded 2 t.minute ++ ':' ::
      (Iso.padded 2 t.second ++ t.endChars)) := by
  unfold form endChars
  split <;> simp [Iso.TimeForm.chars]

theorem zoneChars_utc (h : a.offset = some 0) : a.zoneChars = "+00:00".toList := by
  unfold zoneChars
  rw [h]
  decide

/-- **A fraction that is left out counts as zero**: a plus sign is less than a point. -/
theorem endChars_lt_iff (ha : a.Valid) (hb : b.Valid) (hau : a.offset = some 0) (hbu : b.offset =
    some 0) :
    a.endChars < b.endChars ↔ a.micro < b.micro := by
  have hmicro : a.micro < 10 ^ 6 ∧ b.micro < 10 ^ 6 := ⟨ha.micro, hb.micro⟩
  have hplus : '+' < '.' ∧ '.' ≠ '+' ∧ ¬ '.' < '+' := by decide
  have hsame : ¬ "+00:00".toList < "+00:00".toList := List.lt_irrefl _
  unfold endChars
  rw [zoneChars_utc hau, zoneChars_utc hbu]
  -- Without a fraction the zone begins at once, and its sign sorts before the point.
  split
  · next hzero =>
    rw [hzero, List.nil_append]
    split
    · next hzero' =>
      rw [hzero', List.nil_append]
      exact iff_of_false hsame (Nat.lt_irrefl 0)
    · next hpos =>
      exact iff_of_true (List.cons_lt_cons_iff.2 (.inl hplus.1)) (Nat.pos_of_ne_zero hpos)
  · split
    · next hzero' =>
      rw [hzero', List.nil_append]
      refine iff_of_false (fun hlt => ?_) (Nat.not_lt_zero _)
      rcases List.cons_lt_cons_iff.1 hlt with h | ⟨h, -⟩
      · exact hplus.2.2 h
      · exact hplus.2.1 h
    · rw [List.cons_append, List.cons_append, cons_lt_cons_self_iff,
        Iso.padded_append_lt_iff hmicro.1 hmicro.2]
      exact or_iff_left fun h => hsame h.2

/-- Points in time in universal time are written in their order. -/
theorem text_lt_iff (ha : a.Valid) (hb : b.Valid) (hau : a.offset = some 0) (hbu : b.offset =
    some 0) :
    a.text.toList < b.text.toList ↔ a.Before b := by
  obtain ⟨hay, ham, had⟩ := ha.date_lt
  obtain ⟨hby, hbm, hbd⟩ := hb.date_lt
  have hwidth : ∀ {n : Nat}, n < 60 → n < 10 ^ 2 := fun h => Nat.lt_trans h (by decide)
  have hdate : a.date = b.date ↔ a.date.year = b.date.year ∧ a.date.month = b.date.month ∧
      a.date.day = b.date.day := by
    rw [← Date.mk.injEq]
  rw [ha.toList_text, hb.toList_text, chars_form, chars_form,
    Iso.padded_append_lt_iff hay hby, cons_lt_cons_self_iff, Iso.padded_append_lt_iff ham hbm,
    cons_lt_cons_self_iff, Iso.padded_append_lt_iff had hbd, cons_lt_cons_self_iff,
    Iso.padded_append_lt_iff (hwidth (Nat.lt_trans ha.hour (by decide)))
      (hwidth (Nat.lt_trans hb.hour (by decide))), cons_lt_cons_self_iff,
    Iso.padded_append_lt_iff (hwidth ha.minute) (hwidth hb.minute), cons_lt_cons_self_iff,
    Iso.padded_append_lt_iff (hwidth ha.second) (hwidth hb.second),
    endChars_lt_iff ha hb hau hbu]
  unfold Before Date.Before
  simp only [hdate, and_or_left, or_assoc, and_assoc]

/-- **In universal time the order of the texts is that of the points in time.** -/
theorem toList_text_lt_iff (ha : a.Valid) (hb : b.Valid) (hau : a.offset = some 0)
    (hbu : b.offset = some 0) :
    a.text.toList < b.text.toList ↔ a.localMicros < b.localMicros := by
  rw [text_lt_iff ha hb hau hbu, localMicros_lt_iff ha hb]

end Stamp

end Conveyor
