import Mathlib.Algebra.Ring.Nat
import Conveyor.Calendar.Iso

/-!
# Numbers of fixed width, written and read

A point in time is written with numbers of fixed width and read back byte by byte.

- `Text.toUTF8_toList`: the bytes of a text whose characters have one byte each.
- `Iso.padded`: the characters of a number of fixed width; `Text.toList_zeroPadded` shows that
  these are written.
- `Iso.digits?_padded`: **a number of fixed width is read back**, whatever follows it.
-/

namespace Conveyor

namespace Text

/-- The bytes of an array from a place on, as its loop collects them. -/
theorem toList_loop (bs : ByteArray) (i : Nat) (r : List UInt8) :
    ByteArray.toList.loop bs i r = r.reverse ++ bs.data.toList.drop i := by
  fun_induction ByteArray.toList.loop bs i r with
  | case1 i r h ih =>
    have hi : i < bs.data.toList.length := h
    rw [ih, List.drop_eq_getElem_cons hi]
    simp [ByteArray.get!, h]
  | case2 i r h =>
    have hall : bs.data.toList.drop i = [] := List.drop_eq_nil_of_le (Nat.le_of_not_lt h)
    rw [hall, List.append_nil]

/-- The byte of a character that has only one. -/
def byteOf (c : Char) : UInt8 := c.val.toUInt8

/-- The bytes of a text whose characters have one byte each. -/
theorem toUTF8_toList {s : String} (h : ∀ c ∈ s.toList, c.utf8Size = 1) :
    s.toUTF8.toList = s.toList.map byteOf := by
  have hflat : s.toList.flatMap String.utf8EncodeChar = s.toList.map byteOf := by
    generalize s.toList = cs at h
    induction cs with
    | nil => rfl
    | cons c cs ih =>
      rw [List.flatMap_cons, List.map_cons, ih fun d hd => h d (List.mem_cons_of_mem c hd),
        String.utf8EncodeChar_eq_singleton (h c List.mem_cons_self)]
      rfl
  calc s.toUTF8.toList
      = s.toByteArray.data.toList := toList_loop s.toUTF8 0 []
    _ = s.toList.utf8Encode.data.toList := by rw [String.utf8Encode_toList]
    _ = s.toList.map byteOf := by rw [List.utf8Encode, List.toList_data_toByteArray, hflat]

end Text

namespace Iso

/-- The digits of a number below `10 ^ width`. -/
def padded : (width n : Nat) → List Char
  | 0, _ => []
  | width + 1, n => padded width (n / 10) ++ [(n % 10).digitChar]

@[simp] theorem length_padded (width n : Nat) : (padded width n).length = width := by
  induction width generalizing n with
  | zero => rfl
  | succ width ih => simp [padded, ih]

theorem padded_zero (width : Nat) : padded width 0 = List.replicate width '0' := by
  induction width with
  | zero => rfl
  | succ width ih => rw [padded, ih, List.replicate_succ']; rfl

/-- A digit is a character of one byte, and that byte is read as the digit. -/
theorem digit?_digitChar {k : Nat} (h : k < 10) :
    k.digitChar.utf8Size = 1 ∧ digit? (Text.byteOf k.digitChar) = some k := by
  have hall : ∀ k : Fin 10, (k : Nat).digitChar.utf8Size = 1 ∧
      digit? (Text.byteOf (k : Nat).digitChar) = some (k : Nat) := by decide
  exact hall ⟨k, h⟩

/-- All characters of a number of fixed width are digits. -/
theorem digit_of_mem_padded {width n : Nat} {c : Char} (h : c ∈ padded width n) :
    ∃ k < 10, c = k.digitChar := by
  induction width generalizing n with
  | zero => cases h
  | succ width ih =>
    rcases List.mem_append.1 h with h | h
    · exact ih h
    · exact ⟨n % 10, Nat.mod_lt _ (by decide), List.mem_singleton.1 h⟩

/-- Reading one digit more. -/
theorem digits?_succ (width acc : Nat) (bs : List UInt8) :
    digits? (width + 1) acc bs = (digits? width acc bs).bind fun p => digits? 1 p.1 p.2 := by
  induction width generalizing acc bs with
  | zero => simp [digits?]
  | succ width ih =>
    cases bs with
    | nil => rfl
    | cons b bs =>
      rw [digits?, digits?.eq_3]
      cases digit? b with
      | none => rfl
      | some d => exact ih (acc * 10 + d) bs

/-- **A number of fixed width is read back.** -/
theorem digits?_padded {width n : Nat} (h : n < 10 ^ width) (acc : Nat) (rest : List UInt8) :
    digits? width acc ((padded width n).map Text.byteOf ++ rest) =
      some (acc * 10 ^ width + n, rest) := by
  induction width generalizing n acc rest with
  | zero =>
    obtain rfl : n = 0 := by simpa using h
    simp [padded, digits?]
  | succ width ih =>
    have hlt : n / 10 < 10 ^ width := Nat.div_lt_of_lt_mul (by rwa [Nat.pow_succ'] at h)
    have hdigit := (digit?_digitChar (Nat.mod_lt n (y := 10) (by decide))).2
    rw [padded, List.map_append, List.append_assoc, digits?_succ, ih hlt, Option.bind_some,
      List.map_singleton, List.singleton_append, digits?, hdigit]
    have hvalue : (acc * 10 ^ width + n / 10) * 10 + n % 10 = acc * 10 ^ (width + 1) + n := by
      rw [Nat.pow_succ, Nat.add_mul, Nat.mul_assoc]
      omega
    simp only [digits?, hvalue]

end Iso

namespace Text

/-- The digits of a number, with zeros before them. -/
theorem replicate_append_toDigits {width n : Nat} (h : n < 10 ^ width) (hw : 0 < width) :
    List.replicate (width - (Nat.toDigits 10 n).length) '0' ++ Nat.toDigits 10 n =
      Iso.padded width n := by
  induction width generalizing n with
  | zero => cases hw
  | succ width ih =>
    rw [Nat.toDigits_eq_if (by decide), Iso.padded]
    split
    · next hlt =>
      rw [Nat.div_eq_of_lt hlt, Nat.mod_eq_of_lt hlt, Iso.padded_zero]
      rfl
    · next hge =>
      have hlt : n / 10 < 10 ^ width := Nat.div_lt_of_lt_mul (by rwa [Nat.pow_succ'] at h)
      have hpos : 0 < width := by
        rcases Nat.eq_zero_or_pos width with rfl | hpos
        · omega
        · exact hpos
      rw [← ih hlt hpos, List.length_append, List.length_singleton, Nat.add_sub_add_right,
        List.append_assoc]

/-- What is written for a number of fixed width. -/
theorem toList_zeroPadded {width n : Nat} (h : n < 10 ^ width) (hw : 0 < width) :
    (zeroPadded width n).toList = Iso.padded width n := by
  rw [← replicate_append_toDigits h hw]
  simp [zeroPadded, Nat.repr_eq_ofList_toDigits]

end Text

end Conveyor
