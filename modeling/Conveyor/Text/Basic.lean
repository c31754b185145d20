/-!
# Texts

A text is a sequence of code points. Most of these are characters. A code point of a surrogate is
not one, but may stand in a text by itself, where an escape put it; such a text cannot be written
out in UTF-8.

- `CodePoint`: a character or a lone surrogate.
- `Text`: a sequence of code points; a string is one.
- `Text.utf8?`: the bytes of a text without lone surrogates.
-/

namespace Conveyor

/-- A code point: a character, or a surrogate that stands by itself, counted from the first
one. -/
inductive CodePoint where
  | char (c : Char)
  | lone (index : Fin 2048)
  deriving DecidableEq, Repr, Inhabited

namespace CodePoint

instance : Coe Char CodePoint := ⟨char⟩

/-- The number of the first surrogate. -/
def firstSurrogate : Nat := 0xD800

/-- The number of a code point. -/
def toNat : CodePoint → Nat
  | char c => c.toNat
  | lone index => firstSurrogate + index

/-- The code point of a number; there is none above U+10FFFF. -/
def ofNat (n : Nat) : CodePoint :=
  if h : firstSurrogate ≤ n ∧ n < firstSurrogate + 2048 then .lone ⟨n - firstSurrogate, by omega⟩
  else .char (Char.ofNat n)

/-- The code point of the number of a code point. -/
theorem ofNat_toNat (c : CodePoint) : ofNat c.toNat = c := by
  cases c with
  | char c =>
    have hvalid : c.toNat.isValidChar := c.valid
    unfold Nat.isValidChar at hvalid
    have hscalar : ¬(firstSurrogate ≤ c.toNat ∧ c.toNat < firstSurrogate + 2048) := by
      unfold firstSurrogate
      omega
    rw [toNat, ofNat, dif_neg hscalar, Char.ofNat_toNat]
  | lone index =>
    have hsurrogate : firstSurrogate ≤ firstSurrogate + (index : Nat) ∧
        firstSurrogate + (index : Nat) < firstSurrogate + 2048 := by omega
    rw [toNat, ofNat, dif_pos hsurrogate]
    exact congrArg lone (Fin.ext (Nat.add_sub_cancel_left ..))

theorem toNat_inj {c d : CodePoint} : c.toNat = d.toNat ↔ c = d :=
  ⟨fun h => by rw [← ofNat_toNat c, h, ofNat_toNat], congrArg toNat⟩

/-- Is it a surrogate that stands by itself? -/
def isLone : CodePoint → Bool
  | char _ => false
  | lone _ => true

/-- Does the code point stand for a character of a kind? -/
def meets (kind : Char → Bool) : CodePoint → Bool
  | char c => kind c
  | lone _ => false

/-- The code point with its character changed. -/
def map (f : Char → Char) : CodePoint → CodePoint
  | char c => char (f c)
  | lone index => lone index

/-- Is it an ASCII digit? -/
def isDigit : CodePoint → Bool := meets Char.isDigit

/-- Is it an ASCII letter? -/
def isAlpha : CodePoint → Bool := meets Char.isAlpha

/-- Is it an ASCII letter or digit? -/
def isAlphanum : CodePoint → Bool := meets Char.isAlphanum

/-- The lower case of an ASCII letter. -/
def toLower : CodePoint → CodePoint := map Char.toLower

/-- The upper case of an ASCII letter. -/
def toUpper : CodePoint → CodePoint := map Char.toUpper

instance : LT CodePoint := ⟨fun a b => a.toNat < b.toNat⟩

instance : LE CodePoint := ⟨fun a b => a.toNat ≤ b.toNat⟩

instance (a b : CodePoint) : Decidable (a < b) := inferInstanceAs (Decidable (a.toNat < b.toNat))

instance (a b : CodePoint) : Decidable (a ≤ b) := inferInstanceAs (Decidable (a.toNat ≤ b.toNat))

end CodePoint

/-- A sequence of code points. -/
structure Text where
  ofList ::
  toList : List CodePoint
  deriving DecidableEq, Inhabited

namespace Text

/-- The text of some characters. -/
def ofChars (cs : List Char) : Text := ⟨cs.map .char⟩

/-- A string is a text. -/
def ofString (s : String) : Text := ofChars s.toList

instance : Coe String Text := ⟨ofString⟩

/-- One text after another. -/
protected def append (s t : Text) : Text := ⟨s.toList ++ t.toList⟩

instance : Append Text := ⟨Text.append⟩

/-- The number of code points. -/
def length (s : Text) : Nat := s.toList.length

/-- The number of bytes that the name of a file takes. A surrogate that stands by itself stands
for one byte that is not part of a character. -/
def byteSize (s : Text) : Nat :=
  s.toList.foldl (fun size c => size + match c with
    | .char c => c.utf8Size
    | .lone _ => 1) 0

/-- Is there no code point? -/
def isEmpty (s : Text) : Bool := s.toList.isEmpty

/-- All texts, one after another. -/
def join (ts : List Text) : Text := ⟨ts.flatMap toList⟩

@[simp] theorem toList_ofList (cs : List CodePoint) : (ofList cs).toList = cs := rfl

@[simp] theorem ofList_toList (s : Text) : ofList s.toList = s := rfl

@[simp] theorem toList_append (s t : Text) : (s ++ t).toList = s.toList ++ t.toList := rfl

theorem toList_inj {s t : Text} : s.toList = t.toList ↔ s = t :=
  ⟨fun h => by cases s; cases t; cases h; rfl, fun h => h ▸ rfl⟩

theorem append_assoc (s t u : Text) : s ++ t ++ u = s ++ (t ++ u) :=
  toList_inj.1 (List.append_assoc ..)

@[simp] theorem append_empty (s : Text) : s ++ ofString "" = s :=
  toList_inj.1 (List.append_nil _)

/-- The characters of a text in which no surrogate stands by itself. -/
def chars? (s : Text) : Option (List Char) :=
  s.toList.mapM fun
    | .char c => some c
    | .lone _ => none

/-- The string of a text in which no surrogate stands by itself. -/
def string? (s : Text) : Option String := s.chars?.map String.ofList

/-- The bytes of a text in which no surrogate stands by itself. -/
def utf8? (s : Text) : Option (List UInt8) := s.string?.map fun t => t.toUTF8.toList

theorem chars?_ofChars (cs : List Char) : (ofChars cs).chars? = some cs := by
  rw [chars?, ofChars]
  induction cs with
  | nil => rfl
  | cons c cs ih => simp_all [List.mapM_cons]

@[simp] theorem string?_ofString (s : String) : (ofString s).string? = some s := by
  rw [string?, ofString, chars?_ofChars, Option.map_some, String.ofList_toList]

theorem chars?_eq_some {s : Text} {cs : List Char} (h : s.chars? = some cs) :
    s = ofChars cs := by
  obtain ⟨points⟩ := s
  rw [chars?, toList_ofList] at h
  induction points generalizing cs with
  | nil => cases h; rfl
  | cons p points ih =>
    rw [List.mapM_cons] at h
    cases p with
    | lone index => cases h
    | char c =>
      obtain ⟨d, hd, h⟩ := Option.bind_eq_some_iff.1 h
      obtain ⟨rest, hrest, hcs⟩ := Option.bind_eq_some_iff.1 h
      cases hd
      cases hcs
      exact congrArg (fun t : Text => ofList (.char c :: t.toList)) (ih hrest)

theorem string?_eq_some_iff {s : Text} {t : String} : s.string? = some t ↔ s = ofString t := by
  refine ⟨fun h => ?_, fun h => by rw [h, string?_ofString]⟩
  obtain ⟨cs, hcs, rfl⟩ := Option.map_eq_some_iff.1 h
  rw [chars?_eq_some hcs, ofString, String.toList_ofList]

theorem ofString_inj {s t : String} : ofString s = ofString t ↔ s = t := by
  rw [← string?_eq_some_iff, string?_ofString, Option.some.injEq]

@[simp] theorem utf8?_ofString (s : String) : (ofString s).utf8? = some s.toUTF8.toList := by
  rw [utf8?, string?_ofString, Option.map_some]

instance : Repr Text := ⟨fun s n => Repr.addAppParen ("Text.ofList " ++ reprArg s.toList) n⟩

end Text

end Conveyor
