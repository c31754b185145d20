import Conveyor.Proofs.Fallible
import Conveyor.Proofs.Value
import Conveyor.Record.Json
import Mathlib.Data.List.Chain

/-!
# JSON text is read in one way only

Two values never have the same JSON text, whatever follows the text, unless two surrogates in a
text make up a character: this is written as they are. Floating point numbers and keys that are
no texts are left aside.

- `Text.Unpaired`: no surrogate stands where it makes up a character with the next.
- `readJsonChar`: the character at the front of a JSON text; `readJsonChar_append` reads back
  what is written.
- `jsonString_append_inj`: **a text in quotes tells the text, and where it ends**.
- `Value.Plain`: nothing, truth values, integers, texts of a kind, and lists and mappings of
  these with texts as keys.
- `Value.jsonAt_append_inj`: **so does the text of a plain value**, before a comma or a line
  break.
- `Value.json_inj`: plain values with the same JSON text are the same.
-/

namespace Conveyor

open Conveyor.Text

/-! ## Surrogates -/

/-- Can the code point be the first half of a pair? -/
def CodePoint.isHigh : CodePoint → Bool
  | char _ => false
  | lone index => index < 0x400

/-- Can the code point be the second half of a pair? -/
def CodePoint.isLow : CodePoint → Bool
  | char _ => false
  | lone index => 0x400 ≤ (index : Nat)

/-- No two code points that follow each other make up a pair. -/
def Unpaired (cs : List CodePoint) : Prop :=
  cs.IsChain fun c d => ¬(c.isHigh = true ∧ d.isLow = true)

/-- No two surrogates of a text make up a character. -/
def Text.Unpaired (s : Text) : Prop := Conveyor.Unpaired s.toList

/-- A text of characters has no surrogates. -/
theorem Text.unpaired_ofString (s : String) : (ofString s).Unpaired := by
  show Conveyor.Unpaired (s.toList.map CodePoint.char)
  induction s.toList with
  | nil => exact .nil
  | cons c cs ih => exact List.isChain_cons.2 ⟨fun _ _ h => Bool.false_ne_true h.1, ih⟩

/-! ## Characters -/

/-- A UTF-16 unit of four hexadecimal digits. -/
def readUnit (a b c d : CodePoint) : Option Nat := do
  let a ← hexValue? a
  let b ← hexValue? b
  let c ← hexValue? c
  let d ← hexValue? d
  some (((a * 16 + b) * 16 + c) * 16 + d)

/-- The character of an escape of one letter. -/
def readEscape : CodePoint → CodePoint
  | .char 'n' => '\n'
  | .char 'r' => '\r'
  | .char 't' => '\t'
  | .char 'b' => CodePoint.ofNat 8
  | .char 'f' => CodePoint.ofNat 12
  | c => c

/-- The second unit of a pair at the front of a JSON text, and what follows it. -/
def readLow : List CodePoint → Option (Nat × List CodePoint)
  | .char '\\' :: .char 'u' :: a :: b :: c :: d :: rest => do
    let m ← readUnit a b c d
    if 0xDC00 ≤ m ∧ m < 0xE000 then some (m, rest) else none
  | _ => none

/-- The character at the front of a JSON text, and what follows it. -/
def readJsonChar : List CodePoint → Option (CodePoint × List CodePoint)
  | .char '\\' :: .char 'u' :: a :: b :: c :: d :: rest => do
    let n ← readUnit a b c d
    match if 0xD800 ≤ n ∧ n < 0xDC00 then readLow rest else none with
    | some (m, rest) =>
      some (CodePoint.ofNat (0x10000 + (n - 0xD800) * 0x400 + (m - 0xDC00)), rest)
    | none => some (CodePoint.ofNat n, rest)
  | .char '\\' :: c :: rest => some (readEscape c, rest)
  | c :: rest => some (c, rest)
  | [] => none

theorem hexValue?_hexDigit {n : Nat} (h : n < 16) : hexValue? (hexDigit n) = some n := by
  have hall : ∀ n : Fin 16, hexValue? (hexDigit n) = some (n : Nat) := by decide
  exact hall ⟨n, h⟩

theorem hexText_four (n : Nat) : hexText 4 n =
    [hexDigit (n / 16 / 16 / 16 % 16), hexDigit (n / 16 / 16 % 16), hexDigit (n / 16 % 16),
      hexDigit (n % 16)] := rfl

/-- A UTF-16 unit is read back. -/
theorem readUnit_hexDigits {n : Nat} (h : n < 0x10000) :
    readUnit (hexDigit (n / 16 / 16 / 16 % 16)) (hexDigit (n / 16 / 16 % 16))
    (hexDigit (n / 16 % 16))
      (hexDigit (n % 16)) = some n := by
  have hlt : ∀ n : Nat, n % 16 < 16 := fun n => Nat.mod_lt n (by decide)
  have hvalue : ((n / 16 / 16 / 16 % 16 * 16 + n / 16 / 16 % 16) * 16 + n / 16 % 16) * 16 + n %
      16 = n := by
    omega
  simp only [readUnit, hexValue?_hexDigit (hlt _), Option.bind_eq_bind, Option.bind_some, hvalue]

/-- Code points that are not above the last one; a surrogate is one that stands by itself. -/
theorem toNat_bounds (c : CodePoint) : c.toNat < 0x110000 ∧
    (c.isHigh = true ↔ 0xD800 ≤ c.toNat ∧ c.toNat < 0xDC00) ∧
    (c.isLow = true ↔ 0xDC00 ≤ c.toNat ∧ c.toNat < 0xE000) := by
  cases c with
  | char c =>
    have hvalid : c.toNat.isValidChar := c.valid
    unfold Nat.isValidChar at hvalid
    simp only [CodePoint.toNat, CodePoint.isHigh, CodePoint.isLow]
    exact ⟨by omega, by simp; omega, by simp; omega⟩
  | lone index =>
    simp only [CodePoint.toNat, CodePoint.isHigh, CodePoint.isLow, CodePoint.firstSurrogate,
      decide_eq_true_eq]
    omega

/-- An escape of one unit that is not the first of a pair is read back. -/
theorem readJsonChar_unit {n : Nat} (hunit : n < 0x10000) {rest : List CodePoint}
    (h : 0xD800 ≤ n ∧ n < 0xDC00 → readLow rest = none) :
    readJsonChar (escapeUnit n ++ rest) = some (CodePoint.ofNat n, rest) := by
  have hlow : (if 0xD800 ≤ n ∧ n < 0xDC00 then readLow rest else none) = none := by
    split
    · next hhigh => exact h hhigh
    · rfl
  rw [escapeUnit, hexText_four]
  simp only [List.cons_append, List.nil_append, readJsonChar, readUnit_hexDigits hunit,
    Option.bind_eq_bind, Option.bind_some, hlow]

/-- The second unit of a pair is read back, and no other unit is taken for one. -/
theorem readLow_unit {m : Nat} (hunit : m < 0x10000) (rest : List CodePoint) :
    readLow (escapeUnit m ++ rest) =
      if 0xDC00 ≤ m ∧ m < 0xE000 then some (m, rest) else none := by
  rw [escapeUnit, hexText_four]
  simp only [List.cons_append, List.nil_append, readLow, readUnit_hexDigits hunit,
    Option.bind_eq_bind, Option.bind_some]

/-- The escapes of a character of two units are read back. -/
theorem readJsonChar_pair {n m : Nat} (hn : 0xD800 ≤ n ∧ n < 0xDC00)
    (hm : 0xDC00 ≤ m ∧ m < 0xE000) (rest : List CodePoint) :
    readJsonChar (escapeUnit n ++ escapeUnit m ++ rest) =
      some (CodePoint.ofNat (0x10000 + (n - 0xD800) * 0x400 + (m - 0xDC00)), rest) := by
  have hunit : n < 0x10000 := by omega
  have hlow := readLow_unit (by omega : m < 0x10000) rest
  rw [if_pos hm] at hlow
  rw [List.append_assoc, escapeUnit, hexText_four]
  simp only [List.cons_append, List.nil_append, readJsonChar, readUnit_hexDigits hunit,
    Option.bind_eq_bind, Option.bind_some, if_pos hn, hlow]

/-- What is written of a code point: it begins with the second unit of a pair only if the code
point is one that stands by itself. -/
theorem readLow_jsonChar {c : CodePoint} (h : c.isLow = false) (rest : List CodePoint) :
    readLow (jsonChar c ++ rest) = none := by
  obtain ⟨hlast, -, hlow⟩ := toNat_bounds c
  have hnot : ¬(0xDC00 ≤ c.toNat ∧ c.toNat < 0xE000) := fun hc => by
    rw [hlow.2 hc] at h
    cases h
  unfold jsonChar
  dsimp only
  split
  · rfl
  split
  · rfl
  split
  · next hslash _ =>
    rw [List.cons_append, List.nil_append, readLow]
    intro _ _ _ _ _ heq
    exact absurd (List.cons.inj heq).1 hslash
  split
  · rfl
  split
  · rfl
  split
  · rfl
  split
  · rfl
  split
  · rfl
  split
  · next hunit => rw [readLow_unit hunit, if_neg hnot]
  · rw [List.append_assoc, readLow_unit (by omega), if_neg (by omega)]

/-- **A character inside a JSON text is read back**, whatever follows it, unless both make up a
pair. -/
theorem readJsonChar_append (c : CodePoint) {rest : List CodePoint}
    (h : c.isHigh = true → readLow rest = none) :
    readJsonChar (jsonChar c ++ rest) = some (c, rest) := by
  obtain ⟨hlast, hhigh, -⟩ := toNat_bounds c
  have hsame : ∀ {d : CodePoint}, c.toNat = d.toNat → d = c :=
    fun h => (CodePoint.toNat_inj.1 h).symm
  unfold jsonChar
  dsimp only
  split
  · next h => subst h; rfl
  split
  · next h => subst h; rfl
  split
  · next hquote hslash hplain =>
    rw [List.cons_append, List.nil_append, readJsonChar]
    · intro _ _ _ _ _ h
      exact absurd h hslash
    · intro _ _ h
      exact absurd h hslash
  split
  · next h => subst h; rfl
  split
  · next h => subst h; rfl
  split
  · next h => subst h; rfl
  split
  · next h =>
    obtain rfl : CodePoint.ofNat 8 = c := hsame h
    rfl
  split
  · next h =>
    obtain rfl : CodePoint.ofNat 12 = c := hsame h
    rfl
  split
  · next hunit =>
    rw [readJsonChar_unit hunit fun hc => h (hhigh.2 hc), CodePoint.ofNat_toNat]
  -- Beyond the first plane a character is written as a pair, which has to be put together again.
  · next hlarge =>
    have hvalue : 0x10000 + (0xD800 + (c.toNat - 0x10000) / 0x400 - 0xD800) * 0x400 +
        (0xDC00 + (c.toNat - 0x10000) % 0x400 - 0xDC00) = c.toNat := by omega
    rw [readJsonChar_pair (by omega) (by omega), hvalue, CodePoint.ofNat_toNat]

/-! ## Texts in quotes -/

variable {x y : List CodePoint}

/-- Two characters that are written alike are the same, unless one of them makes up a pair with
what follows. -/
theorem jsonChar_append_inj {c d : CodePoint} (hc : c.isHigh = true → readLow x = none)
    (hd : d.isHigh = true → readLow y = none) (h : jsonChar c ++ x = jsonChar d ++ y) :
    c = d ∧ x = y := by
  have hread := readJsonChar_append c hc
  rw [h, readJsonChar_append d hd] at hread
  obtain ⟨rfl, rfl⟩ := Prod.mk.inj (Option.some.inj hread)
  exact ⟨rfl, rfl⟩

/-- No character is written as a quote. -/
theorem jsonChar_append_ne_quote {c : CodePoint} (hc : c.isHigh = true → readLow x = none) :
    jsonChar c ++ x ≠ .char '\"' :: y := by
  intro h
  have hread := readJsonChar_append c hc
  rw [h] at hread
  obtain ⟨rfl, rfl⟩ := Prod.mk.inj (Option.some.inj hread)
  cases h

/-- What follows a code point does not begin with the second unit of a pair. -/
theorem readLow_flatMap {c : CodePoint} {cs : List CodePoint} (h : Unpaired (c :: cs))
    (hc : c.isHigh = true) : readLow (cs.flatMap jsonChar ++ .char '\"' :: x) = none := by
  cases cs with
  | nil => rfl
  | cons d cs =>
    have hlow : d.isLow = false :=
      Bool.eq_false_iff.2 fun hd => (List.isChain_cons.1 h).1 d rfl ⟨hc, hd⟩
    rw [List.flatMap_cons, List.append_assoc]
    exact readLow_jsonChar hlow _

theorem flatMap_jsonChar_inj {cs ds : List CodePoint} (hcs : Unpaired cs) (hds : Unpaired ds)
    (h : cs.flatMap jsonChar ++ .char '\"' :: x = ds.flatMap jsonChar ++ .char '\"' :: y) :
    cs = ds ∧ x = y := by
  induction cs generalizing ds with
  | nil =>
    cases ds with
    | nil => exact ⟨rfl, (List.cons.inj h).2⟩
    | cons d ds =>
      rw [List.flatMap_cons, List.append_assoc] at h
      exact absurd h.symm (jsonChar_append_ne_quote (readLow_flatMap hds))
  | cons c cs ih =>
    rw [List.flatMap_cons, List.append_assoc] at h
    cases ds with
    | nil => exact absurd h (jsonChar_append_ne_quote (readLow_flatMap hcs))
    | cons d ds =>
      rw [List.flatMap_cons, List.append_assoc] at h
      obtain ⟨rfl, hrest⟩ :=
        jsonChar_append_inj (readLow_flatMap hcs) (readLow_flatMap hds) h
      obtain ⟨rfl, rfl⟩ :=
        ih (List.isChain_cons.1 hcs).2 (List.isChain_cons.1 hds).2 hrest
      exact ⟨rfl, rfl⟩

/-- **A text in quotes tells the text, and where it ends.** -/
theorem jsonString_append_inj {s t : Text} (hs : s.Unpaired) (ht : t.Unpaired)
    (h : (jsonString s).toList ++ x = (jsonString t).toList ++ y) : s = t ∧ x = y := by
  simp only [jsonString, Text.toList_ofList, List.cons_append, List.append_assoc,
    List.nil_append] at h
  obtain ⟨hchars, hrest⟩ := flatMap_jsonChar_inj hs ht (List.cons.inj h).2
  exact ⟨Text.toList_inj.1 hchars, hrest⟩

/-! ## Integers -/

/-- What may follow a value: a comma, a line break, or nothing. -/
def Ends (rest : List CodePoint) : Prop :=
  ∀ c ∈ rest.head?, c = CodePoint.char ',' ∨ c = CodePoint.char '\n'

/-- Is this a character of an integer? -/
def inInteger (c : CodePoint) : Bool := c.isDigit || c = '-'

theorem Ends.takeWhile_append (hx : Ends x) {as : List CodePoint}
    (h : ∀ c ∈ as, inInteger c = true) :
    (as ++ x).takeWhile inInteger = as := by
  rw [List.takeWhile_append_of_pos h]
  cases x with
  | nil => exact List.append_nil as
  | cons c x =>
    have hc : inInteger c = false := by
      rcases hx c rfl with rfl | rfl <;> rfl
    rw [List.takeWhile_cons, hc]
    exact List.append_nil as

theorem isDigit_char (c : Char) : (CodePoint.char c).isDigit = c.isDigit := rfl

theorem isDigit_of_mem_repr {n : Nat} {c : Char} (h : c ∈ (Nat.repr n).toList) :
    c.isDigit = true := by
  rw [Nat.repr_eq_ofList_toDigits, String.toList_ofList] at h
  exact Nat.isDigit_of_mem_toDigits (by decide) (by decide) h

theorem toList_repr_negSucc (n : Nat) :
    (Int.repr (.negSucc n)).toList = '-' :: (Nat.repr (n + 1)).toList := by
  rw [Int.repr, String.toList_append]
  rfl

/-- An integer starts with a digit or a sign, and goes on so. -/
theorem repr_chars (i : Int) : (Int.repr i).toList ≠ [] ∧
    ∀ c ∈ (Int.repr i).toList, inInteger (.char c) = true := by
  cases i with
  | ofNat n =>
    refine ⟨fun h => ?_, fun c hc => ?_⟩
    · have hdigits : (Nat.repr n).toList = [] := h
      rw [Nat.repr_eq_ofList_toDigits, String.toList_ofList] at hdigits
      exact Nat.toDigits_ne_nil hdigits
    · rw [inInteger, isDigit_char, isDigit_of_mem_repr hc, Bool.true_or]
  | negSucc n =>
    rw [toList_repr_negSucc]
    refine ⟨List.cons_ne_nil _ _, fun c hc => ?_⟩
    rcases List.mem_cons.1 hc with rfl | hc
    · rfl
    · rw [inInteger, isDigit_char, isDigit_of_mem_repr hc, Bool.true_or]

/-- Different integers are written differently. -/
theorem toList_repr_inj {i j : Int} (h : (Int.repr i).toList = (Int.repr j).toList) : i = j := by
  have hnat : ∀ {m n : Nat}, (Nat.repr m).toList = (Nat.repr n).toList → m = n := by
    intro m n h
    rw [Nat.repr_eq_ofList_toDigits, Nat.repr_eq_ofList_toDigits, String.toList_ofList,
      String.toList_ofList] at h
    have hvalue := congrArg (Nat.ofDigitChars 10 · 0) h
    simpa only [Nat.ofDigitChars_toDigits (b := 10) (by decide) (by decide)] using hvalue
  -- The texts of numbers that differ in sign differ in their first character.
  have hsign : ∀ {m : Nat} {rest : List Char}, (Nat.repr m).toList ≠ '-' :: rest := by
    intro m rest h
    have hdigit : '-'.isDigit = true := isDigit_of_mem_repr (h ▸ List.mem_cons_self)
    cases hdigit
  cases i with
  | ofNat m =>
    cases j with
    | ofNat n => exact congrArg Int.ofNat (hnat h)
    | negSucc n => exact absurd (h.trans (toList_repr_negSucc n)) hsign
  | negSucc m =>
    cases j with
    | ofNat n => exact absurd (h.symm.trans (toList_repr_negSucc m)) hsign
    | negSucc n =>
      rw [toList_repr_negSucc, toList_repr_negSucc] at h
      exact congrArg Int.negSucc (Nat.succ.inj (hnat (List.cons.inj h).2))

/-- The text of an integer. -/
def intText (i : Int) : Text := Int.repr i

theorem mem_intText {i : Int} {c : CodePoint} (h : c ∈ (intText i).toList) :
    inInteger c = true := by
  obtain ⟨d, hd, rfl⟩ := List.mem_map.1 h
  exact (repr_chars i).2 d hd

/-- An integer tells where it ends. -/
theorem intText_append_inj {i j : Int} (hx : Ends x) (hy : Ends y)
    (h : (intText i).toList ++ x = (intText j).toList ++ y) : i = j ∧ x = y := by
  have hwhile : ((intText i).toList ++ x).takeWhile inInteger = (intText i).toList :=
    hx.takeWhile_append fun c => mem_intText
  rw [h, hy.takeWhile_append fun c => mem_intText] at hwhile
  rw [hwhile] at h
  have htext : intText j = intText i := Text.toList_inj.1 hwhile
  have hrepr := Text.ofString_inj.1 htext
  exact ⟨(toList_repr_inj (congrArg String.toList hrepr)).symm, List.append_cancel_left h⟩

/-! ## Lists and mappings -/

/-- What follows an item of a block: the further items, and the end of the block. -/
def tailChars (level : Nat) (close : CodePoint) : List Text → List CodePoint
  | [] => (jsonBreak level).toList ++ [close]
  | s :: rest => .char ',' :: ((jsonBreak (level + 1)).toList ++
      (s.toList ++ tailChars level close rest))

/-- What follows the bracket of a block. -/
def bodyChars (level : Nat) (close : CodePoint) : List Text → List CodePoint
  | [] => [close]
  | s :: rest => (jsonBreak (level + 1)).toList ++ (s.toList ++ tailChars level close rest)

theorem toList_jsonBlock (first last : CodePoint) (level : Nat) (items : List Text) :
    (jsonBlock (Text.ofList [first]) (Text.ofList [last]) level items).toList =
      first :: bodyChars level last items := by
  cases items with
  | nil => simp [jsonBlock, bodyChars]
  | cons s rest =>
    have htail : ∀ s : Text, (joinWith ("," ++ jsonBreak (level + 1)) (s :: rest)).toList ++
        ((jsonBreak level).toList ++ [last]) = s.toList ++ tailChars level last rest := by
      induction rest with
      | nil => simp [joinWith, tailChars]
      | cons t rest ih =>
        intro s
        rw [joinWith, Text.toList_append, List.append_assoc, ih t, tailChars]
        · simp only [Text.toList_append, List.append_assoc]
          rfl
        · exact List.cons_ne_nil t rest
    have hbody := htail s
    simp only [jsonBlock, bodyChars, List.isEmpty_cons, Bool.false_eq_true, if_false,
        Text.toList_append,
      List.append_assoc, List.cons_append, List.nil_append] at hbody ⊢
    rw [hbody]

theorem toList_jsonBreak (level : Nat) :
    (jsonBreak level).toList = .char '\n' :: List.replicate (2 * level) (.char ' ') := rfl

theorem ends_tailChars (level : Nat) (close : CodePoint) (ss : List Text) :
    Ends (tailChars level close ss ++ x) := by
  cases ss with
  | nil =>
    rw [tailChars, toList_jsonBreak]
    rintro c ⟨⟩
    exact .inr rfl
  | cons s ss =>
    rintro c ⟨⟩
    exact .inl rfl

section

variable {α : Type} {text : α → Except PrintFault Text} {as bs : List α} {ss ts : List Text}

/-- The texts of two things set them apart, and tell where they end. -/
def SetsApart (text : α → Except PrintFault Text) (a b : α) : Prop :=
  ∀ {s t : Text} {x y : List CodePoint}, text a = .ok s → text b = .ok t → Ends x → Ends y →
    s.toList ++ x = t.toList ++ y → a = b ∧ x = y

theorem mapM_cons_eq_ok {a : α} (h : (a :: as).mapM text = .ok ss) :
    ∃ s rest, text a = .ok s ∧ as.mapM text = .ok rest ∧ ss = s :: rest := by
  rw [List.mapM_cons] at h
  obtain ⟨s, hs, h⟩ := bind_eq_ok h
  obtain ⟨rest, hrest, h⟩ := bind_eq_ok h
  exact ⟨s, rest, hs, hrest, (Except.ok.inj h).symm⟩

theorem exists_mapM_eq_ok (h : ∀ a ∈ as, ∃ s, text a = .ok s) :
    ∃ ss, as.mapM text = .ok ss := by
  induction as with
  | nil => exact ⟨[], rfl⟩
  | cons a as ih =>
    obtain ⟨s, hs⟩ := h a List.mem_cons_self
    obtain ⟨ss, hss⟩ := ih fun b hb => h b (List.mem_cons_of_mem a hb)
    rw [List.mapM_cons, hs, hss]
    exact ⟨s :: ss, rfl⟩

theorem mapM_nil_eq_ok (h : ([] : List α).mapM text = .ok ss) : ss = [] :=
  (Except.ok.inj h).symm

/-- The further items of a block tell what they are, and where they end. -/
theorem tailChars_append_inj {level : Nat} {close : CodePoint} (hapart : ∀ a ∈ as, ∀ b ∈ bs,
    SetsApart text a b)
    (has : as.mapM text = .ok ss) (hbs : bs.mapM text = .ok ts)
    (h : tailChars level close ss ++ x = tailChars level close ts ++ y) : as = bs ∧ x = y := by
  induction as generalizing bs ss ts with
  | nil =>
    obtain rfl := mapM_nil_eq_ok has
    cases bs with
    | nil =>
      obtain rfl := mapM_nil_eq_ok hbs
      exact ⟨rfl, List.append_cancel_left h⟩
    | cons b bs =>
      obtain ⟨t, ts, -, -, rfl⟩ := mapM_cons_eq_ok hbs
      rw [tailChars, tailChars, toList_jsonBreak] at h
      cases h
  | cons a as ih =>
    obtain ⟨s, ss, hs, hss, rfl⟩ := mapM_cons_eq_ok has
    cases bs with
    | nil =>
      obtain rfl := mapM_nil_eq_ok hbs
      rw [tailChars, tailChars, toList_jsonBreak level] at h
      cases h
    | cons b bs =>
      obtain ⟨t, ts, ht, hts, rfl⟩ := mapM_cons_eq_ok hbs
      simp only [tailChars, List.cons_append, List.append_assoc] at h
      have hitems := List.append_cancel_left (List.cons.inj h).2
      obtain ⟨rfl, hrest⟩ := hapart a List.mem_cons_self b List.mem_cons_self hs ht
        (ends_tailChars level close ss) (ends_tailChars level close ts) hitems
      obtain ⟨rfl, rfl⟩ := ih
        (fun a ha b hb => hapart a (List.mem_cons_of_mem _ ha) b (List.mem_cons_of_mem _ hb)) hss
          hts hrest
      exact ⟨rfl, rfl⟩

/-- So do all items of a block. -/
theorem bodyChars_append_inj {level : Nat} {close : CodePoint}
    (hclose : close ≠ CodePoint.char '\n')
    (hapart : ∀ a ∈ as, ∀ b ∈ bs, SetsApart text a b) (has : as.mapM text = .ok ss)
    (hbs : bs.mapM text = .ok ts)
    (h : bodyChars level close ss ++ x = bodyChars level close ts ++ y) : as = bs ∧ x = y := by
  cases as with
  | nil =>
    obtain rfl := mapM_nil_eq_ok has
    cases bs with
    | nil =>
      obtain rfl := mapM_nil_eq_ok hbs
      exact ⟨rfl, List.append_cancel_left h⟩
    | cons b bs =>
      obtain ⟨t, ts, -, -, rfl⟩ := mapM_cons_eq_ok hbs
      rw [bodyChars, bodyChars, toList_jsonBreak] at h
      exact absurd (List.cons.inj h).1 hclose
  | cons a as =>
    obtain ⟨s, ss, hs, hss, rfl⟩ := mapM_cons_eq_ok has
    cases bs with
    | nil =>
      obtain rfl := mapM_nil_eq_ok hbs
      rw [bodyChars, bodyChars, toList_jsonBreak] at h
      exact absurd (List.cons.inj h).1.symm hclose
    | cons b bs =>
      obtain ⟨t, ts, ht, hts, rfl⟩ := mapM_cons_eq_ok hbs
      exact tailChars_append_inj hapart has hbs (congrArg (CodePoint.char ',' :: ·) h)

end

/-! ## Values -/

namespace Value

/-- Nothing, truth values, integers, texts of a kind, and lists and mappings of these. -/
inductive Plain (Kind : Text → Prop) : Value → Prop
  | null : Plain Kind .null
  | bool (b : Bool) : Plain Kind (.bool b)
  | int (i : Int) : Plain Kind (.int i)
  | text {s : Text} (kind : Kind s) : Plain Kind (.text s)
  | list {items : List Value} (items_plain : ∀ v ∈ items, Plain Kind v) :
      Plain Kind (.list items)
  | map {entries : List Entry} (keys : ∀ e ∈ entries, ∃ k, e.1 = .text k ∧ Kind k)
    (values : ∀ e ∈ entries, Plain Kind e.2) : Plain Kind (.map entries)

/-- The text of an entry. -/
def entryText (level : Nat) (e : Entry) : Except PrintFault Text := do
  let key ← jsonKey e.1
  let s ← jsonAt level e.2
  .ok (jsonString key ++ ": " ++ s)

theorem jsonItems_eq_mapM (level : Nat) (items : List Value) :
    jsonItems level items = items.mapM (jsonAt level) := by
  induction items with
  | nil => rfl
  | cons v rest ih =>
    rw [jsonItems, List.mapM_cons, ih]
    rfl

theorem jsonEntries_eq_mapM (level : Nat) (entries : List Entry) :
    jsonEntries level entries = entries.mapM (entryText level) := by
  induction entries with
  | nil => rfl
  | cons e rest ih =>
    obtain ⟨k, v⟩ := e
    rw [jsonEntries, List.mapM_cons, ih]
    simp only [entryText, bind_assoc]
    rfl

/-- An integer that is written out. -/
theorem writtenInt_eq_ok {i : Int} {s : Text} (h : writtenInt i = .ok s) : s = intText i := by
  unfold writtenInt at h
  split at h
  · cases h
  · exact (Except.ok.inj h).symm

theorem writtenInt_of_writable {i : Int} (h : (int i).Writable) :
    writtenInt i = .ok (intText i) := by
  unfold writtenInt
  rw [h.isUnwritable]
  exact if_neg Bool.false_ne_true

variable {Kind : Text → Prop} {v w : Value} {level : Nat}

/-- The kinds of plain values. -/
def kind : Value → Nat
  | null => 0
  | bool _ => 1
  | text _ => 2
  | list _ => 3
  | map _ => 4
  | _ => 5

/-- The kind of the values whose texts start with a character. -/
def kindOfFront (c : CodePoint) : Nat :=
  if c = 'n' then 0
  else if c = 't' ∨ c = 'f' then 1
  else if c = '\"' then 2
  else if c = '[' then 3
  else if c = '\x7b' then 4
  else 5

/-- The text of a list or a mapping is a block of the texts of its items. -/
theorem jsonAt_list {items : List Value} {s : Text} (h : jsonAt level (.list items) = .ok s) :
    ∃ ss, items.mapM (jsonAt (level + 1)) = .ok ss ∧
    s.toList = .char '[' :: bodyChars level (.char ']') ss := by
  rw [jsonAt, jsonItems_eq_mapM] at h
  obtain ⟨ss, hss, rfl⟩ := exists_of_map_eq_ok h
  exact ⟨ss, hss, toList_jsonBlock (.char '[') (.char ']') level ss⟩

theorem jsonAt_map {entries : List Entry} {s : Text} (h : jsonAt level (.map entries) =
    .ok s) :
    ∃ ss, entries.mapM (entryText (level + 1)) = .ok ss ∧
      s.toList = .char '\x7b' :: bodyChars level (.char '\x7d') ss := by
  rw [jsonAt, jsonEntries_eq_mapM] at h
  obtain ⟨ss, hss, rfl⟩ := exists_of_map_eq_ok h
  exact ⟨ss, hss, toList_jsonBlock (.char '\x7b') (.char '\x7d') level ss⟩

theorem kindOfFront_int {c : CodePoint} (h : inInteger c = true) : kindOfFront c = 5 := by
  have hne (d : Char) (hd : inInteger d = false) : c ≠ d := by
    rintro rfl
    rw [hd] at h
    cases h
  simp [kindOfFront, hne 'n' rfl, hne 't' rfl, hne 'f' rfl, hne '\"' rfl, hne '[' rfl,
    hne '\x7b' rfl]

/-- The first character tells the kind of a value. -/
theorem Plain.front (hv : v.Plain Kind) {s : Text} (h : jsonAt level v = .ok s) :
    ∃ c rest, s.toList = c :: rest ∧ kindOfFront c = v.kind := by
  cases hv with
  | null =>
    obtain rfl := Except.ok.inj h
    exact ⟨.char 'n', _, rfl, rfl⟩
  | bool b =>
    obtain rfl := Except.ok.inj h
    cases b with
    | false => exact ⟨.char 'f', _, rfl, rfl⟩
    | true => exact ⟨.char 't', _, rfl, rfl⟩
  | int i =>
    obtain rfl := writtenInt_eq_ok h
    have hne : (intText i).toList ≠ [] := fun hnil =>
      (repr_chars i).1 (List.map_eq_nil_iff.1 hnil)
    obtain ⟨c, rest, hrepr⟩ := List.exists_cons_of_ne_nil hne
    exact ⟨c, rest, hrepr, kindOfFront_int (mem_intText (hrepr ▸ List.mem_cons_self))⟩
  | text kind =>
    obtain rfl := Except.ok.inj h
    exact ⟨.char '\"', _, Text.toList_ofList _, rfl⟩
  | list items_plain =>
    obtain ⟨ss, -, hs⟩ := jsonAt_list h
    exact ⟨_, _, hs, rfl⟩
  | map keys values =>
    obtain ⟨ss, -, hs⟩ := jsonAt_map h
    exact ⟨_, _, hs, rfl⟩

/-- Values of different kinds have texts that start differently. -/
theorem Plain.kind_eq (hv : v.Plain Kind) (hw : w.Plain Kind) {s t : Text}
    {x y : List CodePoint} (hs : jsonAt level v = .ok s) (ht : jsonAt level w = .ok t)
    (h : s.toList ++ x = t.toList ++ y) : v.kind = w.kind := by
  obtain ⟨c, rest, hc, hkind⟩ := hv.front hs
  obtain ⟨d, rest', hd, hkind'⟩ := hw.front ht
  rw [hc, hd] at h
  rw [← hkind, ← hkind', (List.cons.inj h).1]

/-- The entry of a mapping tells its key and its value if its value does. -/
theorem setsApart_entry {d e : Entry} (hd : ∃ k, d.1 = .text k ∧ k.Unpaired)
    (he : ∃ k, e.1 = .text k ∧ k.Unpaired) (hapart : SetsApart (jsonAt level) d.2 e.2) :
    SetsApart (entryText level) d e := by
  obtain ⟨k, v⟩ := d
  obtain ⟨l, w⟩ := e
  obtain ⟨k, rfl, hk⟩ := hd
  obtain ⟨l, rfl, hl⟩ := he
  intro s t x y hs ht hx hy h
  obtain ⟨key, hkey, hs⟩ := bind_eq_ok hs
  obtain rfl := Except.ok.inj hkey
  obtain ⟨s, hv, hs⟩ := bind_eq_ok hs
  obtain rfl := Except.ok.inj hs
  obtain ⟨key, hkey, ht⟩ := bind_eq_ok ht
  obtain rfl := Except.ok.inj hkey
  obtain ⟨t, hw, ht⟩ := bind_eq_ok ht
  obtain rfl := Except.ok.inj ht
  simp only [Text.toList_append, List.append_assoc] at h
  obtain ⟨rfl, hrest⟩ := jsonString_append_inj hk hl h
  obtain ⟨rfl, rfl⟩ := hapart hv hw hx hy (List.append_cancel_left hrest)
  exact ⟨rfl, rfl⟩

/-- **The text of a plain value tells the value, and where it ends**, if no surrogates are
paired. -/
theorem jsonAt_append_inj (hv : v.Plain Text.Unpaired) (hw : w.Plain Text.Unpaired) :
    SetsApart (jsonAt level) v w := by
  -- On the first value. The first character tells the kind of both, so the second has the same
  -- shape.
  induction hv generalizing w level with
  | null =>
    intro s t x y hs ht hx hy h
    have hkind := Plain.null.kind_eq hw hs ht h
    cases hw <;> cases hkind
    obtain rfl := Except.ok.inj hs
    obtain rfl := Except.ok.inj ht
    exact ⟨rfl, List.append_cancel_left h⟩
  | bool b =>
    intro s t x y hs ht hx hy h
    have hkind := (Plain.bool b).kind_eq hw hs ht h
    cases hw with
    | bool c =>
      obtain rfl := Except.ok.inj hs
      obtain rfl := Except.ok.inj ht
      cases b <;> cases c
      · exact ⟨rfl, List.append_cancel_left h⟩
      · cases h
      · cases h
      · exact ⟨rfl, List.append_cancel_left h⟩
    | _ => cases hkind
  | int i =>
    intro s t x y hs ht hx hy h
    have hkind := (Plain.int i).kind_eq hw hs ht h
    cases hw with
    | int j =>
      obtain rfl := writtenInt_eq_ok hs
      obtain rfl := writtenInt_eq_ok ht
      obtain ⟨rfl, rfl⟩ := intText_append_inj hx hy h
      exact ⟨rfl, rfl⟩
    | _ => cases hkind
  | @text a ha =>
    intro s t x y hs ht hx hy h
    have hkind := (Plain.text ha).kind_eq hw hs ht h
    cases hw with
    | @text b hb =>
      obtain rfl := Except.ok.inj hs
      obtain rfl := Except.ok.inj ht
      obtain ⟨rfl, rfl⟩ := jsonString_append_inj ha hb h
      exact ⟨rfl, rfl⟩
    | _ => cases hkind
  | @list items items_plain ih =>
    intro s t x y hs ht hx hy h
    have hkind := (Plain.list items_plain).kind_eq hw hs ht h
    cases hw with
    | @list others others_plain =>
      obtain ⟨ss, hss, hs⟩ := jsonAt_list hs
      obtain ⟨ts, hts, ht⟩ := jsonAt_list ht
      rw [hs, ht] at h
      obtain ⟨rfl, rfl⟩ := bodyChars_append_inj (by decide)
        (fun a ha b hb => ih a ha (others_plain b hb)) hss hts (List.cons.inj h).2
      exact ⟨rfl, rfl⟩
    | _ => cases hkind
  | @map entries keys values ih =>
    intro s t x y hs ht hx hy h
    have hkind := (Plain.map keys values).kind_eq hw hs ht h
    cases hw with
    | @map others keys' values' =>
      obtain ⟨ss, hss, hs⟩ := jsonAt_map hs
      obtain ⟨ts, hts, ht⟩ := jsonAt_map ht
      rw [hs, ht] at h
      obtain ⟨rfl, rfl⟩ := bodyChars_append_inj (by decide)
        (fun d hd e he => setsApart_entry (keys d hd) (keys' e he) (ih d hd (values' e he))) hss
          hts
        (List.cons.inj h).2
      exact ⟨rfl, rfl⟩
    | _ => cases hkind

/-- Every plain value has a JSON text, if its integers can be written out. -/
theorem Plain.exists_jsonAt (hv : v.Plain Kind) (h : v.Writable) (level : Nat) :
    ∃ s, jsonAt level v = .ok s := by
  induction hv generalizing level with
  | null => exact ⟨_, rfl⟩
  | bool b => exact ⟨_, rfl⟩
  | int i =>
    exact ⟨_, writtenInt_of_writable h⟩
  | text s => exact ⟨_, rfl⟩
  | @list items items_plain ih =>
    obtain ⟨ss, hss⟩ := exists_mapM_eq_ok fun v hv =>
      ih v hv (writable_list.1 h v hv) (level + 1)
    rw [jsonAt, jsonItems_eq_mapM, hss]
    exact ⟨_, rfl⟩
  | @map entries keys values ih =>
    have hentries : ∀ e ∈ entries, ∃ s, entryText (level + 1) e = .ok s := by
      intro e he
      obtain ⟨k, hk, -⟩ := keys e he
      obtain ⟨s, hs⟩ := ih e he (writable_map.1 h e he).2 (level + 1)
      rw [entryText, hk, hs]
      exact ⟨_, rfl⟩
    obtain ⟨ss, hss⟩ := exists_mapM_eq_ok hentries
    rw [jsonAt, jsonEntries_eq_mapM, hss]
    exact ⟨_, rfl⟩

/-- **Plain values with the same JSON text are the same**, if no surrogates are paired. -/
theorem json_inj (hv : v.Plain Text.Unpaired) (hw : w.Plain Text.Unpaired) {s : Text}
    (hs : v.json = .ok s) (ht : w.json = .ok s) : v = w :=
  (jsonAt_append_inj hv hw hs ht (x := []) (y := []) nofun nofun rfl).1

end Value

end Conveyor
