import Conveyor.Proofs.Calendar.Written

/-!
# Points in time, written and read

- `Stamp.Valid`: the points in time that exist.
- `Iso.TimeForm`: the written forms of a time of day; `Iso.readTime_bytes` reads them back.
- `Stamp.read_text`: **the written form of a point in time is read back**.
-/

namespace Conveyor

open Text (byteOf)

/-- A point in time that exists. -/
structure Stamp.Valid (t : Stamp) : Prop where
  date : t.date.check = .ok t.date
  hour : t.hour < 24
  minute : t.minute < 60
  second : t.second < 60
  micro : t.micro < microsPerSecond
  offset : ∀ o, t.offset = some o → o.natAbs < microsPerDay

namespace Iso

/-! ## Times of day -/

/-- The written forms of a time of day. -/
inductive TimeForm where
  | minutes (hour minute : Nat)
  | seconds (hour minute second : Nat)
  | micros (hour minute second micro : Nat)

namespace TimeForm

/-- The time of day that is written. -/
def clock : TimeForm → Clock
  | minutes h m => ⟨h, m, 0, 0⟩
  | seconds h m s => ⟨h, m, s, 0⟩
  | micros h m s us => ⟨h, m, s, us⟩

/-- The characters of a time of day. -/
def chars : TimeForm → List Char
  | minutes h m => padded 2 h ++ ':' :: padded 2 m
  | seconds h m s => padded 2 h ++ ':' :: (padded 2 m ++ ':' :: padded 2 s)
  | micros h m s us =>
    padded 2 h ++ ':' :: (padded 2 m ++ ':' :: (padded 2 s ++ '.' :: padded 6 us))

/-- All numbers of a time of day have their width. -/
structure Fits (f : TimeForm) : Prop where
  hour : f.clock.hour < 100
  minute : f.clock.minute < 100
  second : f.clock.second < 100
  micro : f.clock.micro < 1000000

/-- The bytes of a time of day. -/
def bytes (f : TimeForm) : List UInt8 := f.chars.map byteOf

end TimeForm

theorem byteOf_colon : byteOf ':' = 0x3A := by decide

theorem byteOf_point : byteOf '.' = 0x2E := by decide

/-- A number of two digits is read back. -/
theorem digits?_two {n : Nat} (h : n < 100) (rest : List UInt8) :
    digits? 2 0 ((padded 2 n).map byteOf ++ rest) = some (n, rest) := by
  have hlt : n < 10 ^ 2 := h
  simpa using digits?_padded hlt 0 rest

/-- The fraction of a second is read back if no digit follows. -/
theorem readFraction_padded {us : Nat} (h : us < 1000000) {rest : List UInt8}
    (hrest : digit? (rest.headD 0) = none) :
    readFraction 6 ((padded 6 us).map byteOf ++ rest) = some (us, follows rest) := by
  have hdrop : (rest.dropWhile fun b => (digit? b).isSome) = rest := by
    cases rest with
    | nil => rfl
    | cons b rest =>
      have hb : digit? b = none := hrest
      simp [hb]
  have hlt : us < 10 ^ 6 := h
  have hread := digits?_padded hlt 0 rest
  simp [readFraction, hread, hdrop]

/-- A number of two digits with a colon after it is the first field of a time of day. -/
theorem readFields_colon {n fields room : Nat} (h : n < 100) (hroom : 3 < room) (first : Bool)
    (acc : List Nat) (rest : List UInt8) :
    readFields true (fields + 1) first room acc ((padded 2 n).map byteOf ++ 0x3A :: rest) =
      readFields true fields false (room - 3) (n :: acc) rest := by
  rw [readFields, digits?_two h]
  simp [Nat.not_le.2 hroom]

/-- A number of two digits at the end of a time of day is its last field. -/
theorem readFields_last {n fields room : Nat} (h : n < 100) (hroom : room ≤ 3) (acc : List Nat)
    (rest : List UInt8) :
    readFields true (fields + 1) false room acc ((padded 2 n).map byteOf ++ rest) =
      some ((n :: acc).reverse, 0, follows rest) := by
  rw [readFields, digits?_two h]
  simp [hroom]

/-- A number of two digits with a fraction after it is the last field of a time of day. -/
theorem readFields_point {n us fields : Nat} (h : n < 100) (hus : us < 1000000) (acc : List Nat)
    {rest : List UInt8} (hrest : digit? (rest.headD 0) = none) :
    readFields true (fields + 1) false 9 acc
        ((padded 2 n).map byteOf ++ 0x2E :: ((padded 6 us).map byteOf ++ rest)) =
      some ((n :: acc).reverse, us, follows rest) := by
  rw [readFields, digits?_two h]
  simp [readFraction_padded hus hrest]

/-- **A time of day is read back** if no digit follows. -/
theorem readTime_bytes {f : TimeForm} (h : f.Fits) {rest : List UInt8}
    (hrest : digit? (rest.headD 0) = none) :
    readTime f.bytes.length (f.bytes ++ rest) = some (f.clock, follows rest) := by
  obtain ⟨hhour, hminute, hsecond, hmicro⟩ := h
  cases f with
  | minutes hour minute =>
    simp only [TimeForm.clock] at hhour hminute
    have hbytes : (TimeForm.minutes hour minute).bytes ++ rest =
        (padded 2 hour).map byteOf ++ 0x3A :: ((padded 2 minute).map byteOf ++ rest) := by
      simp [TimeForm.bytes, TimeForm.chars, byteOf_colon]
    have hlength : (TimeForm.minutes hour minute).bytes.length = 5 := by
      simp [TimeForm.bytes, TimeForm.chars]
    rw [hbytes, hlength, readTime, readFields_colon hhour (by omega),
      readFields_last hminute (by omega)]
    rfl
  | seconds hour minute second =>
    simp only [TimeForm.clock] at hhour hminute hsecond
    have hbytes : (TimeForm.seconds hour minute second).bytes ++ rest =
        (padded 2 hour).map byteOf ++ 0x3A :: ((padded 2 minute).map byteOf ++ 0x3A ::
          ((padded 2 second).map byteOf ++ rest)) := by
      simp [TimeForm.bytes, TimeForm.chars, byteOf_colon]
    have hlength : (TimeForm.seconds hour minute second).bytes.length = 8 := by
      simp [TimeForm.bytes, TimeForm.chars]
    rw [hbytes, hlength, readTime, readFields_colon hhour (by omega),
      readFields_colon hminute (by omega), readFields_last hsecond (by omega)]
    rfl
  | micros hour minute second micro =>
    simp only [TimeForm.clock] at hhour hminute hsecond hmicro
    have hbytes : (TimeForm.micros hour minute second micro).bytes ++ rest =
        (padded 2 hour).map byteOf ++ 0x3A :: ((padded 2 minute).map byteOf ++ 0x3A ::
          ((padded 2 second).map byteOf ++ 0x2E :: ((padded 6 micro).map byteOf ++ rest))) := by
      simp [TimeForm.bytes, TimeForm.chars, byteOf_colon, byteOf_point]
    have hlength : (TimeForm.micros hour minute second micro).bytes.length = 15 := by
      simp [TimeForm.bytes, TimeForm.chars]
    rw [hbytes, hlength, readTime, readFields_colon hhour (by omega),
      readFields_colon hminute (by omega), readFields_point hsecond hmicro _ hrest]
    rfl

/-! ## Dates and offsets -/

theorem startsOffset_digit {b : UInt8} {k : Nat} (h : digit? b = some k) :
    startsOffset b = false := by
  unfold digit? at h
  unfold startsOffset
  split at h
  · next hb =>
    simp only [Bool.and_eq_true, decide_eq_true_eq, UInt8.le_iff_toNat_le] at hb
    simp only [Bool.or_eq_false_iff, beq_eq_false_iff_ne, ne_eq, ← UInt8.toNat_inj]
    simp at hb ⊢
    omega
  · cases h

/-- A time of day is written with digits, colons and a point. -/
theorem TimeForm.mem_chars {f : TimeForm} {c : Char} (h : c ∈ f.chars) :
    (∃ k < 10, c = k.digitChar) ∨ c = ':' ∨ c = '.' := by
  have hdigit : ∀ width n, c ∈ padded width n → ∃ k < 10, c = k.digitChar :=
    fun _ _ => digit_of_mem_padded
  cases f <;> simp only [chars, List.mem_append, List.mem_cons] at h <;> grind

/-- No byte of a time of day starts an offset. -/
theorem startsOffset_bytes {f : TimeForm} : ∀ b ∈ f.bytes, startsOffset b = false := by
  intro b hb
  obtain ⟨c, hc, rfl⟩ := List.mem_map.1 hb
  rcases f.mem_chars hc with ⟨k, hk, rfl⟩ | rfl | rfl
  · exact startsOffset_digit (digit?_digitChar hk).2
  · decide
  · decide

/-- Every character of a time of day has one byte. -/
theorem TimeForm.utf8Size {f : TimeForm} : ∀ c ∈ f.chars, c.utf8Size = 1 := by
  intro c hc
  rcases f.mem_chars hc with ⟨k, hk, rfl⟩ | rfl | rfl
  · exact (digit?_digitChar hk).1
  · decide
  · decide

/-- The characters of an offset: a sign and a time of day. -/
def offsetChars (negative : Bool) (f : TimeForm) : List Char :=
  (if negative then '-' else '+') :: f.chars

/-- The offset that a sign and a time of day stand for. -/
def offsetOf (negative : Bool) (f : TimeForm) : Int :=
  let micros : Int :=
    ((f.clock.hour * 3600 + f.clock.minute * 60 + f.clock.second) * microsPerSecond +
      f.clock.micro : Nat)
  if negative then -micros else micros

/-- A time of day goes on up to its offset. -/
theorem takeWhile_bytes {f : TimeForm} {rest : List UInt8}
    (h : (rest.takeWhile fun b => !startsOffset b) = []) :
    ((f.bytes ++ rest).takeWhile fun b => !startsOffset b) = f.bytes := by
  rw [List.takeWhile_append_of_pos fun b hb => by rw [startsOffset_bytes b hb]; rfl, h,
    List.append_nil]

/-- A time of day without an offset is read back. -/
theorem readClock_bytes {f : TimeForm} (h : f.Fits) :
    readClock f.bytes = some (f.clock, none) := by
  have hroom : ((f.bytes ++ []).takeWhile fun b => !startsOffset b) = f.bytes :=
    takeWhile_bytes rfl
  have hread : readTime f.bytes.length (f.bytes ++ []) = some (f.clock, false) :=
    readTime_bytes h rfl
  rw [List.append_nil] at hroom hread
  simp [readClock, hroom, hread]

/-- A time of day with an offset is read back. -/
theorem readClock_offset {f g : TimeForm} (hf : f.Fits) (hg : g.Fits) (negative : Bool) :
    readClock (f.bytes ++ (offsetChars negative g).map byteOf) =
      some (f.clock, some (offsetOf negative g)) := by
  have hsign : ∃ sign : UInt8, (offsetChars negative g).map byteOf = sign :: g.bytes ∧
      startsOffset sign = true ∧ sign ≠ 0x5A ∧ (sign = 0x2D ↔ negative = true) ∧
      digit? sign = none := by
    cases negative
    · exact ⟨0x2B, rfl, by decide⟩
    · exact ⟨0x2D, rfl, by decide⟩
  obtain ⟨sign, hbytes, hstarts, hz, hneg, hdigit⟩ := hsign
  have hroom : ((f.bytes ++ sign :: g.bytes).takeWhile fun b => !startsOffset b) = f.bytes :=
    takeWhile_bytes (by simp [hstarts])
  have hclock : readTime f.bytes.length (f.bytes ++ sign :: g.bytes) = _ :=
    readTime_bytes hf hdigit
  have hoffset : readTime g.bytes.length (g.bytes ++ []) = some (g.clock, false) :=
    readTime_bytes hg rfl
  rw [List.append_nil] at hoffset
  rw [hbytes]
  simp [readClock, hroom, hclock, hoffset, hz, offsetOf, hneg]

/-- The bytes of a date. -/
def dateBytes (d : Date) : List UInt8 :=
  (padded 4 d.year).map byteOf ++ 0x2D :: ((padded 2 d.month).map byteOf ++ 0x2D ::
    (padded 2 d.day).map byteOf)

/-- What is seen of a date with more after it: the columns of its hyphens, and a digit behind the
first. -/
theorem byteAt_dateBytes (d : Date) (b : UInt8) (rest : List UInt8) :
    (dateBytes d ++ b :: rest).length = 11 + rest.length ∧
      byteAt (dateBytes d ++ b :: rest) 4 = 0x2D ∧ byteAt (dateBytes d ++ b :: rest) 5 ≠ 0x57 ∧
      byteAt (dateBytes d ++ b :: rest) 10 = b ∧ (dateBytes d ++ b :: rest).drop 11 = rest := by
  have hdigit : ∀ k < 10, byteOf k.digitChar ≠ 0x57 := by decide
  refine ⟨?_, rfl, hdigit _ (Nat.mod_lt _ (by decide)), rfl, rfl⟩
  simp [dateBytes]
  omega

/-- A date is read back. -/
theorem readDate_bytes {d : Date} (hyear : d.year < 10000) (hmonth : d.month < 100)
    (hday : d.day < 100) (rest : List UInt8) : readDate (dateBytes d ++ rest) 10 = some d := by
  have hassoc : dateBytes d ++ rest = (padded 4 d.year).map byteOf ++ (0x2D ::
      ((padded 2 d.month).map byteOf ++ (0x2D :: ((padded 2 d.day).map byteOf ++ rest)))) := by
    simp [dateBytes]
  have hread : digits? 4 0 (dateBytes d ++ rest) = some (d.year, 0x2D ::
      ((padded 2 d.month).map byteOf ++ (0x2D :: ((padded 2 d.day).map byteOf ++ rest)))) := by
    rw [hassoc, digits?_padded (by simpa using hyear), Nat.zero_mul, Nat.zero_add]
  have hhead : (((padded 2 d.month).map byteOf ++
      (0x2D :: ((padded 2 d.day).map byteOf ++ rest))).head? == some 0x57) = false := by
    have hdigit : ∀ k < 10, (some (byteOf k.digitChar) == some (0x57 : UInt8)) =
      false := by decide
    exact hdigit _ (Nat.mod_lt _ (by decide))
  simp only [readDate, hread, hhead, digits?_two hmonth, digits?_two hday, Option.bind_eq_bind,
    Option.bind_some, List.head?_cons, BEq.rfl, if_true, List.drop_succ_cons, List.drop_zero,
    Bool.false_eq_true, if_false, bne_self_eq_false, Bool.and_false]

/-- **A date with a letter and a time of day after it is read back.** -/
theorem readParts_bytes {d : Date} (hyear : d.year < 10000) (hmonth : d.month < 100)
    (hday : d.day < 100) {rest : List UInt8} {clock : Clock} {offset : Option Int}
    (hclock : readClock rest = some (clock, offset)) :
    readParts (dateBytes d ++ 0x54 :: rest) = some (d, clock, offset) := by
  obtain ⟨hlength, hhyphen, hdigit, hletter, hrest⟩ := byteAt_dateBytes d 0x54 rest
  have hsep : separatorAt (dateBytes d ++ 0x54 :: rest) = some 10 := by
    unfold separatorAt
    rw [hlength, hhyphen, if_neg (by omega), if_pos rfl, if_neg hdigit]
  have hwidth : charWidth (byteAt (dateBytes d ++ 0x54 :: rest) 10) = 1 := by
    rw [hletter]
    decide
  unfold readParts
  rw [hlength, if_neg (by omega), hsep]
  simp only [Option.bind_eq_bind, Option.bind_some, readDate_bytes hyear hmonth hday]
  rw [if_pos (by omega), hwidth, hrest, hclock]
  rfl

end Iso

/-! ## Points in time -/

namespace Offset

/-- The time of day that an offset is written as. -/
def form (micros : Int) : Iso.TimeForm :=
  let n := micros.natAbs
  let s := n / microsPerSecond
  if n % microsPerSecond ≠ 0 then
    .micros (s / 3600) (s / 60 % 60) (s % 60) (n % microsPerSecond)
  else if s % 60 ≠ 0 then .seconds (s / 3600) (s / 60 % 60) (s % 60)
  else .minutes (s / 3600) (s / 60 % 60)

variable {o : Int}

/-- The parts of a written offset. -/
theorem clock_form (o : Int) :
    (form o).clock = ⟨o.natAbs / microsPerSecond / 3600, o.natAbs / microsPerSecond / 60 % 60,
      o.natAbs / microsPerSecond % 60, o.natAbs % microsPerSecond⟩ := by
  unfold form
  dsimp only
  split
  · rfl
  · next hmicros =>
    have hmicros : o.natAbs % microsPerSecond = 0 := by simpa using hmicros
    split
    · simp [Iso.TimeForm.clock, hmicros]
    · next hseconds =>
      have hseconds : o.natAbs / microsPerSecond % 60 = 0 := by simpa using hseconds
      simp [Iso.TimeForm.clock, hmicros, hseconds]

theorem fits_form (h : o.natAbs < microsPerDay) : (form o).Fits := by
  have hday : o.natAbs < 86400 * 1000000 := h
  constructor <;> rw [clock_form] <;> simp only [microsPerSecond] <;> omega

/-- An offset is made up of its parts. -/
theorem offsetOf_form (o : Int) : Iso.offsetOf (o < 0) (form o) = o := by
  have hparts : (o.natAbs / microsPerSecond / 3600 * 3600 +
      o.natAbs / microsPerSecond / 60 % 60 * 60 + o.natAbs / microsPerSecond % 60) *
        microsPerSecond + o.natAbs % microsPerSecond = o.natAbs := by
    simp only [microsPerSecond]
    omega
  rw [Iso.offsetOf, clock_form]
  simp only [hparts]
  split
  · next hneg =>
    have hneg : o < 0 := by simpa using hneg
    omega
  · next hpos =>
    have hpos : ¬o < 0 := by simpa using hpos
    omega

/-- An offset is written as a sign and a time of day. -/
theorem toList_text (h : o.natAbs < microsPerDay) :
    (text o).toList = Iso.offsetChars (o < 0) (form o) := by
  have hday : o.natAbs < 86400 * 1000000 := h
  have hhour : o.natAbs / microsPerSecond / 3600 < 10 ^ 2 := by
    simp only [microsPerSecond]
    omega
  have hminute : o.natAbs / microsPerSecond / 60 % 60 < 10 ^ 2 := by omega
  have hsecond : o.natAbs / microsPerSecond % 60 < 10 ^ 2 := by omega
  have hmicro : o.natAbs % microsPerSecond < 10 ^ 6 := by
    simp only [microsPerSecond]
    omega
  have hsign : (if o < 0 then "-" else "+" : String).toList = [if o < 0 then '-' else '+'] := by
    split <;> rfl
  by_cases hmicros : o.natAbs % microsPerSecond = 0
  · by_cases hseconds : o.natAbs / microsPerSecond % 60 = 0
    · simp [text, form, Iso.offsetChars, Iso.TimeForm.chars, hsign, hmicros, hseconds,
        Text.toList_zeroPadded hhour, Text.toList_zeroPadded hminute]
    · simp [text, form, Iso.offsetChars, Iso.TimeForm.chars, hsign, hmicros, hseconds,
        Text.toList_zeroPadded hhour, Text.toList_zeroPadded hminute,
        Text.toList_zeroPadded hsecond]
  · simp [text, form, Iso.offsetChars, Iso.TimeForm.chars, hsign, hmicros,
      Text.toList_zeroPadded hhour, Text.toList_zeroPadded hminute,
      Text.toList_zeroPadded hsecond, Text.toList_zeroPadded hmicro]

end Offset

namespace Stamp

variable {t : Stamp}

/-- The time of day of a point in time. -/
def form (t : Stamp) : Iso.TimeForm :=
  if t.micro = 0 then .seconds t.hour t.minute t.second
  else .micros t.hour t.minute t.second t.micro

theorem clock_form (t : Stamp) : t.form.clock = ⟨t.hour, t.minute, t.second, t.micro⟩ := by
  unfold form
  split
  · next h => simp [Iso.TimeForm.clock, h]
  · rfl

theorem Valid.fits_form (h : t.Valid) : t.form.Fits := by
  have hmicro : t.micro < 1000000 := h.micro
  have hhour := h.hour
  have hminute := h.minute
  have hsecond := h.second
  constructor <;> rw [clock_form] <;> dsimp only <;> omega

/-- The parts of a date that exists have their width. -/
theorem Valid.date_lt (h : t.Valid) : t.date.year < 10000 ∧ t.date.month < 100 ∧
    t.date.day < 100 := by
  have hcheck := h.date
  unfold Date.check at hcheck
  split at hcheck
  · cases hcheck
  · split at hcheck
    · cases hcheck
    · split at hcheck
      · cases hcheck
      · have hdays : daysInMonth t.date.year t.date.month ≤ 31 := by
          unfold daysInMonth
          repeat' split
          all_goals omega
        simp only [Bool.or_eq_true, decide_eq_true_eq, not_or] at *
        omega

theorem Valid.toList_clockText (h : t.Valid) : t.clockText.toList = t.form.chars := by
  have hhour : t.hour < 10 ^ 2 := Nat.lt_trans h.hour (by decide)
  have hminute : t.minute < 10 ^ 2 := Nat.lt_trans h.minute (by decide)
  have hsecond : t.second < 10 ^ 2 := Nat.lt_trans h.second (by decide)
  have hmicro : t.micro < 10 ^ 6 := h.micro
  by_cases hzero : t.micro = 0
  · simp [clockText, form, Iso.TimeForm.chars, hzero, Text.toList_zeroPadded hhour,
      Text.toList_zeroPadded hminute, Text.toList_zeroPadded hsecond]
  · simp [clockText, form, Iso.TimeForm.chars, hzero, Text.toList_zeroPadded hhour,
      Text.toList_zeroPadded hminute, Text.toList_zeroPadded hsecond,
      Text.toList_zeroPadded hmicro]

/-- The characters of the offset of a point in time. -/
def zoneChars (t : Stamp) : List Char :=
  match t.offset with
  | none => []
  | some o => Iso.offsetChars (o < 0) (Offset.form o)

/-- The characters of a point in time. -/
theorem Valid.toList_text (h : t.Valid) :
    t.text.toList = Iso.padded 4 t.date.year ++ '-' :: (Iso.padded 2 t.date.month ++ '-' ::
      (Iso.padded 2 t.date.day ++ 'T' :: (t.form.chars ++ t.zoneChars))) := by
  have hyear : t.date.year < 10 ^ 4 := h.date_lt.1
  have hmonth : t.date.month < 10 ^ 2 := h.date_lt.2.1
  have hday : t.date.day < 10 ^ 2 := h.date_lt.2.2
  have hdate : t.date.text.toList = Iso.padded 4 t.date.year ++
      '-' :: (Iso.padded 2 t.date.month ++
      '-' :: Iso.padded 2 t.date.day) := by
    simp [Date.text, Text.toList_zeroPadded hyear, Text.toList_zeroPadded hmonth,
      Text.toList_zeroPadded hday]
  unfold zoneChars
  cases ho : t.offset with
  | none => simp [text, textWith, ho, hdate, h.toList_clockText]
  | some o =>
    simp [text, textWith, ho, hdate, h.toList_clockText, Offset.toList_text (h.offset o ho)]

/-- The bytes of a point in time. -/
theorem Valid.bytes_text (h : t.Valid) :
    t.text.toUTF8.toList = Iso.dateBytes t.date ++
    0x54 :: (t.form.bytes ++ t.zoneChars.map byteOf) := by
  -- Bytes and characters are as many only because every character is one byte.
  have hdigits : ∀ width n, ∀ c ∈ Iso.padded width n, c.utf8Size = 1 := by
    intro width n c hc
    obtain ⟨k, hk, rfl⟩ := Iso.digit_of_mem_padded hc
    exact (Iso.digit?_digitChar hk).1
  have hzone : ∀ c ∈ t.zoneChars, c.utf8Size = 1 := by
    intro c hc
    unfold zoneChars at hc
    split at hc
    · cases hc
    · rcases List.mem_cons.1 hc with rfl | hc
      · split <;> decide
      · exact Iso.TimeForm.utf8Size c hc
  rw [Text.toUTF8_toList, h.toList_text]
  · simp only [Iso.dateBytes, Iso.TimeForm.bytes, List.map_append, List.map_cons,
        List.append_assoc,
      List.cons_append]
    rfl
  · intro c hc
    rw [h.toList_text] at hc
    simp only [List.mem_append, List.mem_cons] at hc
    rcases hc with hc | rfl | hc | rfl | hc | rfl | hc | hc
    · exact hdigits _ _ _ hc
    · decide
    · exact hdigits _ _ _ hc
    · decide
    · exact hdigits _ _ _ hc
    · decide
    · exact Iso.TimeForm.utf8Size c hc
    · exact hzone c hc

/-- The time of day and the offset of a point in time are read back. -/
theorem Valid.readClock_bytes (h : t.Valid) :
    Iso.readClock (t.form.bytes ++ t.zoneChars.map byteOf) =
      some (⟨t.hour, t.minute, t.second, t.micro⟩, t.offset) := by
  rw [← clock_form]
  unfold zoneChars
  cases ho : t.offset with
  | none =>
    rw [List.map_nil, List.append_nil]
    exact Iso.readClock_bytes h.fits_form
  | some o =>
    have hread := Iso.readClock_offset h.fits_form (Offset.fits_form (h.offset o ho)) (o < 0)
    rwa [Offset.offsetOf_form] at hread

/-- **The written form of a point in time is read back.** -/
theorem Valid.read_text (h : t.Valid) : Stamp.read (.ofString t.text) = .ok t := by
  obtain ⟨hyear, hmonth, hday⟩ := h.date_lt
  have hparts : Iso.readParts t.text.toUTF8.toList =
      some (t.date, ⟨t.hour, t.minute, t.second, t.micro⟩, t.offset) := by
    rw [h.bytes_text]
    exact Iso.readParts_bytes hyear hmonth hday h.readClock_bytes
  have hcheck : t.check = .ok t := by
    have hhour := h.hour
    have hminute := h.minute
    have hsecond := h.second
    unfold Stamp.check
    rw [h.date]
    simp only [bind, Except.bind]
    rw [if_neg (by omega), if_neg (by omega), if_neg (by omega)]
  rw [Stamp.read, Iso.plainSeparator_ofString, Text.utf8?_ofString, Option.bind_some, hparts]
  cases ho : t.offset with
  | none =>
    have hstamp : (⟨t.date, t.hour, t.minute, t.second, t.micro, none⟩ : Stamp) = t := by
      rw [← ho]
    simp only [hstamp, hcheck]
    rfl
  | some o =>
    have hstamp : (⟨t.date, t.hour, t.minute, t.second, t.micro, some o⟩ : Stamp) = t := by
      rw [← ho]
    have hoffset : Offset.check o = .ok o := if_pos (h.offset o ho)
    simp only [hstamp, hcheck, hoffset]
    rfl

end Stamp

end Conveyor
