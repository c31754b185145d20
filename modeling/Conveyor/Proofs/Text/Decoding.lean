import Conveyor.Text.Utf8
import Mathlib.Algebra.Group.Nat.Defs
import Mathlib.Tactic.SplitIfs

/-!
# The text of a byte string

What a byte string says in UTF-8 is told by the encodings of the characters alone. It is read
from left to right: where the encoding of a character stands, that character is read, and
elsewhere an ill-formed part, which counts as one U+FFFD. Such a part goes on as long as it could
still become a character, but takes at least one byte.

- `Unfinished`, `IllFormed`: the beginning of a character, and the longest part that belongs to
  none.
- `Reads`: reading some characters, with the bytes that are left.
- `Decoding`, `DecodingSoFar`: the text of a whole byte string, and of one that may go on.
- `Awaits`: the bytes that a state of the decoder stands for.
- `decoding_iff`, `decodingSoFar_iff`: **the decoder finds the text of every byte string**.
-/

namespace Conveyor.Text.Utf8

open String (utf8EncodeChar)

/-- The bytes begin the encoding of a character and do not complete it. -/
def Unfinished (bs : List UInt8) : Prop :=
  ∃ c, bs <+: utf8EncodeChar c ∧ bs ≠ utf8EncodeChar c

/-- No character stands at the start of `part ++ rest`, and `part` is what is ill formed there:
the longest beginning that could still become a character, or else a single byte. -/
structure IllFormed (part rest : List UInt8) : Prop where
  noChar (c : Char) : ¬ utf8EncodeChar c <+: part ++ rest
  nonempty : part ≠ []
  begins : part.length = 1 ∨ Unfinished part
  longest (more : List UInt8) : more <+: part ++ rest → Unfinished more →
    more.length ≤ part.length

/-- Reading some bytes from left to right gives these characters, and leaves the rest of the
bytes. -/
inductive Reads : List UInt8 → List Char → List UInt8 → Prop
  | stop (rest : List UInt8) : Reads rest [] rest
  | char (c : Char) {bs rest : List UInt8} {cs : List Char} (next : Reads bs cs rest) :
      Reads (utf8EncodeChar c ++ bs) (c :: cs) rest
  | ill {part bs rest : List UInt8} {cs : List Char} (bad : IllFormed part bs)
    (next : Reads bs cs rest) :
      Reads (part ++ bs) ('\uFFFD' :: cs) rest

/-- The text of a whole byte string. -/
def Decoding (bs : List UInt8) (cs : List Char) : Prop := Reads bs cs []

/-- The text of a byte string that may go on: an unfinished character at its end is not read. -/
def DecodingSoFar (bs : List UInt8) (cs : List Char) : Prop :=
  ∃ rest, Reads bs cs rest ∧ Unfinished rest ∧
    ∀ rest', rest' <:+ bs → Unfinished rest' → rest'.length ≤ rest.length

/-! ## The bytes of a character -/

/-- A code point that a character can have. -/
def IsScalar (v : Nat) : Prop := v < 0x110000 ∧ (v < 0xD800 ∨ 0xE000 ≤ v)

/-- How many bytes follow the first one of a code point. -/
def trailing (v : Nat) : Nat :=
  if v ≤ 0x7F then 0 else if v ≤ 0x7FF then 1 else if v ≤ 0xFFFF then 2 else 3

/-- The first byte of a code point. -/
def leading (v : Nat) : Nat :=
  if v ≤ 0x7F then v
  else if v ≤ 0x7FF then 0xC0 + v / 64
  else if v ≤ 0xFFFF then 0xE0 + v / 4096
  else 0xF0 + v / 262144

/-- The last `n` bytes of a code point, six bits each. -/
def trail : Nat → Nat → List UInt8
  | 0, _ => []
  | n + 1, v => UInt8.ofNat (v / 64 ^ n % 64 + 0x80) :: trail n v

theorem isScalar_toNat (c : Char) : IsScalar c.toNat := by
  have hvalid : c.toNat.isValidChar := c.valid
  unfold Nat.isValidChar at hvalid
  unfold IsScalar
  omega

theorem exists_char {v : Nat} (hv : IsScalar v) : ∃ c : Char, c.toNat = v := by
  have hvalid : v.isValidChar := by
    unfold IsScalar at hv
    unfold Nat.isValidChar
    omega
  refine ⟨Char.ofNat v, ?_⟩
  rw [Char.ofNat, dif_pos hvalid]
  rfl

/-- The four ranges of code points. -/
theorem leading_cases (v : Nat) :
    v ≤ 0x7F ∧ trailing v = 0 ∧ leading v = v ∨
      0x7F < v ∧ v ≤ 0x7FF ∧ trailing v = 1 ∧ leading v = 0xC0 + v / 64 ∨
      0x7FF < v ∧ v ≤ 0xFFFF ∧ trailing v = 2 ∧ leading v = 0xE0 + v / 4096 ∨
      0xFFFF < v ∧ trailing v = 3 ∧ leading v = 0xF0 + v / 262144 := by
  unfold leading trailing
  split_ifs <;> omega

theorem encode_eq (c : Char) :
    utf8EncodeChar c = UInt8.ofNat (leading c.toNat) :: trail (trailing c.toNat) c.toNat := by
  obtain ⟨hlt, -⟩ := isScalar_toNat c
  unfold utf8EncodeChar leading trailing
  rw [Char.toNat_val]
  generalize c.toNat = v at hlt
  dsimp only
  split_ifs
  · rfl
  · have hmod : v / 64 % 0x20 + 0xC0 = 0xC0 + v / 64 := by omega
    simp only [trail, hmod, Nat.pow_zero, Nat.div_one]
  · have hmod : v / 4096 % 0x10 + 0xE0 = 0xE0 + v / 4096 := by omega
    simp only [trail, hmod, Nat.reducePow, Nat.pow_zero, Nat.div_one]
  · have hmod : v / 262144 % 0x08 + 0xF0 = 0xF0 + v / 262144 := by omega
    simp only [trail, hmod, Nat.reducePow, Nat.pow_zero, Nat.div_one]

theorem encode_ne_nil (c : Char) : utf8EncodeChar c ≠ [] := by
  rw [encode_eq]
  exact List.cons_ne_nil _ _

/-- No encoding begins another. -/
theorem eq_of_prefix_encode {c d : Char} (h : utf8EncodeChar c <+: utf8EncodeChar d) :
    c = d := by
  obtain ⟨t, ht⟩ := h
  have hd := ByteArray.utf8DecodeChar?_utf8EncodeChar_append (b := ByteArray.empty) (c := d)
  rw [← ht, List.toByteArray_append, ByteArray.append_assoc] at hd
  exact Option.some.inj (ByteArray.utf8DecodeChar?_utf8EncodeChar_append.symm.trans hd)

/-- No character stands at the start of an unfinished one. -/
theorem Unfinished.not_prefix_encode {bs : List UInt8} (h : Unfinished bs) (c : Char) :
    ¬ utf8EncodeChar c <+: bs := by
  obtain ⟨d, hbs, hne⟩ := h
  intro hc
  obtain rfl := eq_of_prefix_encode (hc.trans hbs)
  exact hne (hbs.eq_of_length_le hc.length_le)

theorem singleton_prefix_encode {b : UInt8} {c : Char} :
    [b] <+: utf8EncodeChar c ↔ leading c.toNat = b.toNat := by
  have hbyte : (UInt8.ofNat (leading c.toNat)).toNat = leading c.toNat := by
    have hscalar := isScalar_toNat c
    have hcases := leading_cases c.toNat
    unfold IsScalar at hscalar
    exact UInt8.toNat_ofNat_of_lt' (show leading c.toNat < 256 by omega)
  rw [encode_eq, List.cons_prefix_cons, ← UInt8.toNat_inj, hbyte]
  exact ⟨fun h => h.1.symm, fun h => ⟨h.symm, List.nil_prefix⟩⟩

/-! ## What is read is determined -/

theorem IllFormed.length_le {part bs part' bs' : List UInt8} (h : IllFormed part bs)
    (h' : IllFormed part' bs') (heq : part ++ bs = part' ++ bs') :
    part.length ≤ part'.length := by
  rcases h.begins with hone | hbegins
  · have hpos := List.length_pos_iff.2 h'.nonempty
    omega
  · exact h'.longest part (heq ▸ List.prefix_append part bs) hbegins

namespace Reads

variable {bs rest : List UInt8} {cs ds : List Char}

/-- The ways of reading, for bytes that are given as a whole. -/
theorem cases_of (h : Reads bs cs rest) :
    (bs = rest ∧ cs = []) ∨
      (∃ c bs' cs', bs = utf8EncodeChar c ++ bs' ∧ cs = c :: cs' ∧ Reads bs' cs' rest) ∨
      ∃ part bs' cs', bs = part ++ bs' ∧ cs = '\uFFFD' :: cs' ∧ IllFormed part bs' ∧
      Reads bs' cs' rest := by
  cases h with
  | stop => exact .inl ⟨rfl, rfl⟩
  | char c next => exact .inr (.inl ⟨c, _, _, rfl, rfl, next⟩)
  | ill bad next => exact .inr (.inr ⟨_, _, _, rfl, rfl, bad, next⟩)

/-- What is left is the end of the bytes. -/
theorem suffix (h : Reads bs cs rest) : rest <:+ bs := by
  induction h with
  | stop => exact List.suffix_rfl
  | char c _ ih => exact ih.trans (List.suffix_append _ _)
  | ill _ _ ih => exact ih.trans (List.suffix_append _ _)

/-- Something is read only where something more than the rest stands. -/
theorem append_ne {part : List UInt8} (hpart : part ≠ []) (h : Reads bs cs rest) :
    part ++ bs ≠ rest := by
  intro heq
  have hle := h.suffix.length_le
  have hpos := List.length_pos_iff.2 hpart
  have hlength := congrArg List.length heq
  rw [List.length_append] at hlength
  omega

/-- **The characters are determined by the bytes and by what is left of them.** -/
theorem unique (h : Reads bs cs rest) (h' : Reads bs ds rest) : cs = ds := by
  induction h generalizing ds with
  | stop rest =>
    rcases h'.cases_of with ⟨-, rfl⟩ | ⟨c, bs', cs', heq, -, next⟩ | ⟨part, bs', cs', heq, -,
      bad, next⟩
    · rfl
    · exact absurd heq.symm (next.append_ne (encode_ne_nil c))
    · exact absurd heq.symm (next.append_ne bad.nonempty)
  | @char c bs rest cs next ih =>
    rcases h'.cases_of with ⟨heq, -⟩ | ⟨d, bs', ds', heq, rfl, next'⟩ | ⟨part, bs', -, heq,
      -, bad, -⟩
    · exact absurd heq (next.append_ne (encode_ne_nil c))
    · -- Two encodings at the same place are the same.
      have hcd : c = d := by
        have hc : utf8EncodeChar c <+: utf8EncodeChar d ++ bs' := heq ▸ List.prefix_append _ bs
        rcases List.prefix_or_prefix_of_prefix hc (List.prefix_append _ bs') with hle | hle
        · exact eq_of_prefix_encode hle
        · exact (eq_of_prefix_encode hle).symm
      subst hcd
      rw [List.append_cancel_left_eq] at heq
      subst heq
      rw [ih next']
    · exact absurd (heq ▸ List.prefix_append _ bs) (bad.noChar c)
  | @ill part bs rest cs bad next ih =>
    rcases h'.cases_of with ⟨heq, -⟩ | ⟨d, bs', -, heq, -, -⟩ | ⟨part', bs', ds', heq, rfl,
      bad', next'⟩
    · exact absurd heq (next.append_ne bad.nonempty)
    · exact absurd (heq ▸ List.prefix_append _ bs') (bad.noChar d)
    · have hlength : part.length = part'.length :=
        Nat.le_antisymm (bad.length_le bad' heq) (bad'.length_le bad heq.symm)
      obtain ⟨-, rfl⟩ := List.append_inj heq hlength
      rw [ih next']

/-- Reading can go on with what is left. -/
theorem append {rest' : List UInt8} (h : Reads bs cs rest) (h' : Reads rest ds rest') :
    Reads bs (cs ++ ds) rest' := by
  induction h with
  | stop => exact h'
  | char c _ ih => exact .char c (ih h')
  | ill bad _ ih => exact .ill bad (ih h')

end Reads

/-! ## What the states of the decoder stand for -/

/-- A code point may be the one that the decoder is inside of, `n + 1` bytes before its end: its
first bits are `code`, and its next byte is one of those that are awaited. -/
def Fits (n lo hi code v : Nat) : Prop :=
  v / 64 ^ (n + 1) = code ∧ lo ≤ v / 64 ^ n % 64 + 0x80 ∧ v / 64 ^ n % 64 + 0x80 ≤ hi

/-- The bytes `pre` begin just the characters whose code points fit. -/
structure Inside (n lo hi code : Nat) (pre : List UInt8) : Prop where
  lower : 0x80 ≤ lo
  upper : hi ≤ 0xBF
  proper : lo ≤ hi
  nonempty : pre ≠ []
  scalar (v : Nat) (h : Fits n lo hi code v) : IsScalar v
  encode_eq (c : Char) (h : Fits n lo hi code c.toNat) :
    utf8EncodeChar c = pre ++ trail (n + 1) c.toNat
  fits (c : Char) (h : pre <+: utf8EncodeChar c) : Fits n lo hi code c.toNat

/-- The bytes that were read in a state since the last character was complete. -/
def Awaits : State → List UInt8 → Prop
  | .ready, pre => pre = []
  | .inside left lo hi code, pre => ∃ n, left = n + 1 ∧ Inside n lo hi code pre

theorem awaits_ready : Awaits .ready [] := rfl

theorem div_pow_succ (v n : Nat) : v / 64 ^ (n + 1) = v / 64 ^ n / 64 := by
  rw [Nat.pow_succ, Nat.div_div_eq_div_mul]

namespace Inside

variable {n lo hi code : Nat} {pre : List UInt8}

/-- Some character fits. -/
theorem exists_fits (h : Inside n lo hi code pre) : ∃ c : Char, Fits n lo hi code c.toNat := by
  have hlower := h.lower
  have hupper := h.upper
  have hproper := h.proper
  have hdiv : (code * 64 + (lo - 0x80)) * 64 ^ n / 64 ^ n = code * 64 + (lo - 0x80) :=
    Nat.mul_div_cancel _ (Nat.pow_pos (by decide))
  have hfits : Fits n lo hi code ((code * 64 + (lo - 0x80)) * 64 ^ n) := by
    unfold Fits
    rw [div_pow_succ, hdiv]
    omega
  obtain ⟨c, hc⟩ := exists_char (h.scalar _ hfits)
  exact ⟨c, hc ▸ hfits⟩

theorem unfinished (h : Inside n lo hi code pre) : Unfinished pre := by
  obtain ⟨c, hc⟩ := h.exists_fits
  refine ⟨c, ?_, fun heq => ?_⟩
  · rw [h.encode_eq c hc]
    exact List.prefix_append _ _
  · exact List.cons_ne_nil _ _ (List.self_eq_append_right.1 (heq.trans (h.encode_eq c hc)))

/-- The next byte of a character is one of those that are awaited. -/
theorem next_byte (h : Inside n lo hi code pre) {b : UInt8} {bs : List UInt8} {c : Char}
    (hc : pre ++ b :: bs <+: utf8EncodeChar c) :
    Fits n lo hi code c.toNat ∧ c.toNat / 64 ^ n % 64 + 0x80 = b.toNat := by
  have hfits := h.fits c ((List.prefix_append pre _).trans hc)
  refine ⟨hfits, ?_⟩
  rw [h.encode_eq c hfits, trail, List.prefix_append_right_inj, List.cons_prefix_cons] at hc
  rw [hc.1, UInt8.toNat_ofNat_of_lt' (show _ < 256 by omega)]

/-- If the next byte is none of those that are awaited, the character stays unfinished. -/
theorem illFormed (h : Inside n lo hi code pre) {rest : List UInt8}
    (hrest : ∀ b ∈ rest.head?, ¬ (lo ≤ b.toNat ∧ b.toNat ≤ hi)) : IllFormed pre rest := by
  -- Nothing that begins a character is longer than `pre`.
  have hlongest : ∀ more c, more <+: pre ++ rest → more <+: utf8EncodeChar c →
      more.length ≤ pre.length := by
    intro more c hmore hc
    refine Nat.le_of_not_lt fun hlong => ?_
    obtain ⟨t, rfl⟩ := List.prefix_of_prefix_length_le (List.prefix_append pre rest) hmore
      (Nat.le_of_lt hlong)
    rw [List.prefix_append_right_inj] at hmore
    cases t with
    | nil => exact absurd hlong (by simp)
    | cons b t =>
      obtain ⟨⟨-, hlo, hhi⟩, hbyte⟩ := h.next_byte hc
      rw [hbyte] at hlo hhi
      obtain ⟨s, rfl⟩ := hmore
      exact hrest b rfl ⟨hlo, hhi⟩
  refine ⟨fun c hc => ?_, h.nonempty, .inr h.unfinished, ?_⟩
  · have hle := hlongest _ c hc List.prefix_rfl
    exact h.unfinished.not_prefix_encode c
      (List.prefix_of_prefix_length_le hc (List.prefix_append pre rest) hle)
  · rintro more hmore ⟨c, hc, -⟩
    exact hlongest more c hmore hc

/-- The next byte is one of those that are awaited: it completes a character, or the decoder goes
on. -/
theorem step_cases (h : Inside n lo hi code pre) {b : UInt8} (hlo : lo ≤ b.toNat)
    (hhi : b.toNat ≤ hi) :
    (∃ c, utf8EncodeChar c = pre ++ [b] ∧
        step (.inside (n + 1) lo hi code) b = (.ready, [some c])) ∨
      ∃ m lo' hi' code', Inside m lo' hi' code' (pre ++ [b]) ∧
        step (.inside (n + 1) lo hi code) b = (.inside (m + 1) lo' hi' code', []) := by
  have hlower := h.lower
  have hupper := h.upper
  have hwithin : (decide (lo ≤ b.toNat) && decide (b.toNat ≤ hi)) = true := by
    rw [decide_eq_true hlo, decide_eq_true hhi]
    rfl
  generalize hcode : code * 64 + (b.toNat - 0x80) = code'
  cases n with
  | zero =>
    have hfits : Fits 0 lo hi code code' := by
      simp only [Fits, Nat.reducePow, Nat.reduceAdd, Nat.pow_zero, Nat.div_one]
      omega
    obtain ⟨c, rfl⟩ := exists_char (h.scalar code' hfits)
    refine .inl ⟨c, ?_, ?_⟩
    · have hbyte : c.toNat % 64 + 0x80 = b.toNat := by omega
      rw [h.encode_eq c hfits, trail, trail, Nat.pow_zero, Nat.div_one, hbyte, UInt8.ofNat_toNat]
    · rw [step, if_pos hwithin, if_pos (Nat.le_refl 1), hcode, Char.ofNat_toNat]
  | succ n =>
    have hfits (v : Nat) : Fits n 0x80 0xBF code' v ↔
        Fits (n + 1) lo hi code v ∧ v / 64 ^ (n + 1) % 64 + 0x80 = b.toNat := by
      unfold Fits
      rw [div_pow_succ v (n + 1)]
      omega
    refine .inr ⟨n, 0x80, 0xBF, code', ?_, ?_⟩
    · refine ⟨Nat.le_refl _, Nat.le_refl _, by decide, by simp, fun v hv => ?_, fun c hc => ?_,
        fun c hc => (hfits _).2 (h.next_byte hc)⟩
      · exact h.scalar v ((hfits v).1 hv).1
      · obtain ⟨hc, hbyte⟩ := (hfits _).1 hc
        rw [h.encode_eq c hc, trail, hbyte, UInt8.ofNat_toNat, List.append_assoc]
        rfl
    · rw [step, if_pos hwithin, if_neg (by omega), hcode]
      rfl

end Inside

/-- The first byte of a character of several bytes. -/
theorem inside_lead {n lo hi code : Nat} {b : UInt8} (lower : 0x80 ≤ lo) (upper : hi ≤ 0xBF)
    (proper : lo ≤ hi) (scalar : ∀ v, Fits n lo hi code v → IsScalar v)
    (hleading : ∀ v, IsScalar v → (Fits n lo hi code v ↔ leading v = b.toNat))
    (htrailing : ∀ v, leading v = b.toNat → trailing v = n + 1) : Inside n lo hi code [b] := by
  refine ⟨lower, upper, proper, List.cons_ne_nil _ _, scalar, fun c hc => ?_, fun c hc => ?_⟩
  · have hc := (hleading _ (isScalar_toNat c)).1 hc
    rw [encode_eq, htrailing _ hc, hc, UInt8.ofNat_toNat]
    rfl
  · exact (hleading _ (isScalar_toNat c)).2 (singleton_prefix_encode.1 hc)

/-- What the decoder makes of a byte that does not continue a character. -/
inductive Leads (b : UInt8) : State × List (Option Char) → Prop
  | char (c : Char) (complete : utf8EncodeChar c = [b]) : Leads b (.ready, [some c])
  | ill (bad : ∀ c, ¬ [b] <+: utf8EncodeChar c) : Leads b (.ready, [none])
  | inside {n lo hi code : Nat} (begun : Inside n lo hi code [b]) :
      Leads b (.inside (n + 1) lo hi code, [])

theorem leads_lead (b : UInt8) : Leads b (lead b.toNat) := by
  have hb : b.toNat < 256 := b.toNat_lt
  unfold lead
  simp only [beq_iff_eq]
  -- One branch for each range of first bytes.
  repeat' refine iteInduction (fun h => ?_) (fun h => ?_)
  · obtain ⟨c, hc⟩ := exists_char (v := b.toNat) (by unfold IsScalar; omega)
    rw [← hc, Char.ofNat_toNat]
    refine .char c ?_
    rw [encode_eq, hc, leading, trailing, if_pos (by omega), if_pos (by omega),
      UInt8.ofNat_toNat]
    rfl
  · refine .ill fun c hc => ?_
    have hleading := singleton_prefix_encode.1 hc
    have hcases := leading_cases c.toNat
    omega
  iterate 7
    · refine .inside (inside_lead (by omega) (by omega) (by omega) ?_ ?_ ?_) <;> intro v <;>
        have hcases := leading_cases v <;>
        simp only [Fits, IsScalar, Nat.reducePow, Nat.reduceAdd, Nat.pow_zero, Nat.div_one]
          <;> omega
  · refine .ill fun c hc => ?_
    have hleading := singleton_prefix_encode.1 hc
    have hcases := leading_cases c.toNat
    have hscalar := isScalar_toNat c
    unfold IsScalar at hscalar
    omega

/-- A byte that begins no character is ill formed by itself. -/
theorem illFormed_singleton {b : UInt8} (h : ∀ c, ¬ [b] <+: utf8EncodeChar c)
    (rest : List UInt8) :
    IllFormed [b] rest := by
  have hfirst : ∀ more c, more <+: [b] ++ rest → more <+: utf8EncodeChar c → more = [] := by
    intro more c hmore hc
    cases more with
    | nil => rfl
    | cons x more =>
      obtain ⟨rfl, -⟩ := List.cons_prefix_cons.1 hmore
      exact absurd ((List.cons_prefix_cons.2 ⟨rfl, List.nil_prefix⟩ : [x] <+: x :: more).trans
        hc) (h c)
  refine ⟨fun c hc => ?_, List.cons_ne_nil _ _, .inl rfl, ?_⟩
  · exact encode_ne_nil c (hfirst _ c hc List.prefix_rfl)
  · rintro more hmore ⟨c, hc, -⟩
    rw [hfirst more c hmore hc]
    exact Nat.zero_le _

/-! ## Running the decoder -/

/-- A byte that is not awaited ends the unfinished character, and is read by itself. -/
theorem run_inside_of_not {n lo hi code : Nat} {b : UInt8} (h : ¬ (lo ≤ b.toNat ∧ b.toNat ≤ hi))
    (bs : List UInt8) :
    run (.inside (n + 1) lo hi code) (b :: bs) =
      ((run .ready (b :: bs)).1, none :: (run .ready (b :: bs)).2) := by
  have hout : (decide (lo ≤ b.toNat) && decide (b.toNat ≤ hi)) = false := by
    rw [← Bool.decide_and]
    exact decide_eq_false h
  rw [run, step, hout]
  rfl

/-- Bytes read from a state on are read after those that it stands for. -/
theorem reads_run {s : State} {pre : List UInt8} (h : Awaits s pre) (bs : List UInt8) :
    ∃ rest, Awaits (run s bs).1 rest ∧ Reads (pre ++ bs) (replaceIll (run s bs).2) rest := by
  induction bs generalizing s pre with
  | nil =>
    refine ⟨pre, h, ?_⟩
    rw [List.append_nil]
    exact .stop pre
  | cons b bs ih =>
    -- A byte by itself; a byte that is not awaited comes back to this case.
    have hready : ∃ rest, Awaits (run .ready (b :: bs)).1 rest ∧
        Reads (b :: bs) (replaceIll (run .ready (b :: bs)).2) rest := by
      have hlead := leads_lead b
      rw [run, step]
      generalize lead b.toNat = next at hlead
      cases hlead with
      | char c complete =>
        obtain ⟨rest, hrest, hreads⟩ := ih awaits_ready
        refine ⟨rest, hrest, ?_⟩
        have hchar := Reads.char c hreads
        rwa [complete] at hchar
      | ill bad =>
        obtain ⟨rest, hrest, hreads⟩ := ih awaits_ready
        exact ⟨rest, hrest, .ill (illFormed_singleton bad bs) hreads⟩
      | @inside n lo hi code begun =>
        have hinside : Awaits (.inside (n + 1) lo hi code) [b] := ⟨n, rfl, begun⟩
        exact ih hinside
    cases s with
    | ready =>
      obtain rfl : pre = [] := h
      exact hready
    | inside left lo hi code =>
      obtain ⟨n, rfl, hinside⟩ := h
      by_cases hb : lo ≤ b.toNat ∧ b.toNat ≤ hi
      · rw [run]
        rcases hinside.step_cases hb.1 hb.2 with
          ⟨c, hc, hstep⟩ | ⟨m, lo', hi', code', hnext, hstep⟩
        · obtain ⟨rest, hrest, hreads⟩ := ih awaits_ready
          rw [hstep]
          refine ⟨rest, hrest, ?_⟩
          have hchar := Reads.char c hreads
          rwa [hc, List.append_assoc] at hchar
        · rw [hstep, List.append_cons]
          exact ih ⟨m, rfl, hnext⟩
      · obtain ⟨rest, hrest, hreads⟩ := hready
        rw [run_inside_of_not hb]
        refine ⟨rest, hrest, .ill (hinside.illFormed ?_) hreads⟩
        rintro _ ⟨⟩
        exact hb

/-- **The decoder finds the text of every byte string.** -/
theorem decoding_iff {bs : List UInt8} {cs : List Char} : Decoding bs cs ↔ decode bs = cs := by
  have hdecode : Decoding bs (decode bs) := by
    obtain ⟨rest, hrest, hreads⟩ := reads_run awaits_ready bs
    have hflush : Reads rest (replaceIll (flush (run .ready bs).1)) [] := by
      cases hstate : (run .ready bs).1 with
      | ready =>
        rw [hstate] at hrest
        obtain rfl : rest = [] := hrest
        exact .stop []
      | inside left lo hi code =>
        rw [hstate] at hrest
        obtain ⟨n, rfl, hinside⟩ := hrest
        have hnext : ∀ b ∈ ([] : List UInt8).head?, ¬ (lo ≤ b.toNat ∧ b.toNat ≤ hi) := by
          rintro b ⟨⟩
        have hill := Reads.ill (hinside.illFormed hnext) (.stop [])
        rwa [List.append_nil] at hill
    have hall := hreads.append hflush
    rw [replaceIll, replaceIll, ← List.map_append] at hall
    exact hall
  exact ⟨fun h => hdecode.unique h, fun h => h ▸ hdecode⟩

/-! ## A byte string that may go on -/

/-- The bytes that a state stands for are determined. -/
theorem Awaits.unique {s : State} {pre pre' : List UInt8} (h : Awaits s pre)
    (h' : Awaits s pre') :
    pre = pre' := by
  cases s with
  | ready => exact h.trans h'.symm
  | inside left lo hi code =>
    obtain ⟨n, rfl, hinside⟩ := h
    obtain ⟨n', hn, hinside'⟩ := h'
    obtain rfl : n = n' := Nat.succ.inj hn
    obtain ⟨c, hc⟩ := hinside.exists_fits
    exact List.append_cancel_right
      ((hinside.encode_eq c hc).symm.trans (hinside'.encode_eq c hc))

theorem Awaits.unfinished {s : State} {pre : List UInt8} (h : Awaits s pre) :
    Unfinished pre := by
  cases s with
  | ready =>
    obtain rfl : pre = [] := h
    exact ⟨'a', List.nil_prefix, (encode_ne_nil 'a').symm⟩
  | inside left lo hi code =>
    obtain ⟨n, rfl, hinside⟩ := h
    exact hinside.unfinished

/-- While the bytes do not complete a character that they begin, the decoder stays inside of
it. -/
theorem awaits_run_of_begun {n lo hi code : Nat} {pre bs : List UInt8}
    (h : Inside n lo hi code pre)
    {c : Char} (hc : pre ++ bs <+: utf8EncodeChar c) (hne : pre ++ bs ≠ utf8EncodeChar c) :
    Awaits (run (.inside (n + 1) lo hi code) bs).1 (pre ++ bs) := by
  induction bs generalizing n lo hi code pre with
  | nil =>
    rw [List.append_nil]
    exact ⟨n, rfl, h⟩
  | cons b bs ih =>
    obtain ⟨⟨-, hlo, hhi⟩, hbyte⟩ := h.next_byte hc
    rw [hbyte] at hlo hhi
    rw [List.append_cons] at hc hne ⊢
    rw [run]
    rcases h.step_cases hlo hhi with ⟨d, hd, -⟩ | ⟨m, lo', hi', code', hnext, hstep⟩
    · -- A complete character would be the one that they begin.
      obtain rfl := eq_of_prefix_encode (hd ▸ (List.prefix_append _ bs).trans hc)
      exact absurd (hc.eq_of_length_le (hd ▸ (List.prefix_append _ bs).length_le)) hne
    · rw [hstep]
      exact ih hnext hc hne

/-- Wherever the decoder is, it is inside an unfinished character once it has read it. -/
theorem awaits_run_of_unfinished {s : State} {pre bs : List UInt8} (h : Awaits s pre)
    (hbs : Unfinished bs) (hne : bs ≠ []) : Awaits (run s bs).1 bs := by
  obtain ⟨c, hc, hshort⟩ := hbs
  cases bs with
  | nil => exact absurd rfl hne
  | cons b bs =>
    have hb : [b] <+: utf8EncodeChar c :=
      (List.cons_prefix_cons.2 ⟨rfl, List.nil_prefix⟩ : [b] <+: b :: bs).trans hc
    have hready : Awaits (run .ready (b :: bs)).1 (b :: bs) := by
      have hlead := leads_lead b
      rw [run, step]
      generalize lead b.toNat = next at hlead
      cases hlead with
      | char d complete =>
        obtain rfl := eq_of_prefix_encode (complete ▸ hb)
        exact absurd (hc.eq_of_length_le (complete ▸ Nat.le_add_left 1 bs.length)) hshort
      | ill bad => exact absurd hb (bad c)
      | inside begun => exact awaits_run_of_begun begun hc hshort
    cases s with
    | ready => exact hready
    | inside left lo hi code =>
      obtain ⟨n, rfl, hinside⟩ := h
      -- The first byte of a character is never awaited.
      have hout : ¬ (lo ≤ b.toNat ∧ b.toNat ≤ hi) := by
        have hleading := singleton_prefix_encode.1 hb
        have hcases := leading_cases c.toNat
        have hlower := hinside.lower
        have hupper := hinside.upper
        omega
      rw [run_inside_of_not hout]
      exact hready

/-- **The decoder finds the text of every byte string that may go on.** -/
theorem decodingSoFar_iff {bs : List UInt8} {cs : List Char} :
    DecodingSoFar bs cs ↔ replaceIll (run .start bs).2 = cs := by
  obtain ⟨rest, hrest, hreads⟩ := reads_run awaits_ready bs
  have hlongest : ∀ rest', rest' <:+ bs → Unfinished rest' → rest'.length ≤ rest.length := by
    rintro rest' ⟨front, rfl⟩ hunfinished
    by_cases hnil : rest' = []
    · rw [hnil]
      exact Nat.zero_le _
    · obtain ⟨pre, hpre, -⟩ := reads_run awaits_ready front
      have hawaits := awaits_run_of_unfinished hpre hunfinished hnil
      rw [run_append] at hrest
      exact Nat.le_of_eq (congrArg List.length (hawaits.unique hrest))
  have hsoFar : DecodingSoFar bs (replaceIll (run .start bs).2) :=
    ⟨rest, hreads, hrest.unfinished, hlongest⟩
  refine ⟨?_, fun h => h ▸ hsoFar⟩
  rintro ⟨rest', hreads', hunfinished, hlongest'⟩
  have hsuffix : rest <:+ bs := hreads.suffix
  have hsuffix' : rest' <:+ bs := hreads'.suffix
  have hlength : rest.length = rest'.length :=
    Nat.le_antisymm (hlongest' rest hsuffix hrest.unfinished)
      (hlongest rest' hsuffix' hunfinished)
  obtain rfl : rest = rest' :=
    (List.suffix_of_suffix_length_le hsuffix hsuffix' (Nat.le_of_eq hlength)).eq_of_length
      hlength
  exact hreads.unique hreads'

end Conveyor.Text.Utf8
