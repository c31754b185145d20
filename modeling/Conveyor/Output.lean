import Conveyor.Text.Basic

/-!
# Bounded output

What a script writes is kept only up to a limit: the last characters win.

- `OutputBuffer`: the characters kept, and whether any were dropped.
- `OutputBuffer.write`: append, then drop from the front what exceeds the limit.
- `OutputBuffer.writeAll`: one text after another.
-/

namespace Conveyor

/-- The last characters written, at most `limit` of them. -/
structure OutputBuffer where
  limit : Int
  chars : List CodePoint
  truncated : Bool
  deriving DecidableEq, Repr

/-- The number of characters kept of a step's output unless configured otherwise. -/
def defaultOutputLimit : Int := 65536

namespace OutputBuffer

/-- A buffer that holds nothing yet. -/
def empty (limit : Int) : OutputBuffer := ⟨limit, [], false⟩

/-- The last characters of a text, at most `limit` of them. -/
def lastChars (limit : Int) (cs : List CodePoint) : List CodePoint :=
  cs.drop (cs.length - limit.toNat)

/-- Append a text and keep the last characters. -/
def write (b : OutputBuffer) (cs : List CodePoint) : OutputBuffer :=
  let all := b.chars ++ cs
  if b.limit < all.length then
    { b with chars := lastChars b.limit all, truncated := true }
  else { b with chars := all }

/-- Append texts one after another. -/
def writeAll (b : OutputBuffer) (texts : List (List CodePoint)) : OutputBuffer :=
  texts.foldl write b

/-- The text kept. -/
def text (b : OutputBuffer) : Text := Text.ofList b.chars

/-- Writing keeps the limit. -/
@[simp] theorem limit_write (b : OutputBuffer) (cs : List CodePoint) :
    (b.write cs).limit = b.limit := by
  simp only [write]
  split <;> rfl

/-- The characters kept are the last of all, whether any had to be dropped or not. -/
theorem chars_write (b : OutputBuffer) (cs : List CodePoint) :
    (b.write cs).chars = lastChars b.limit (b.chars ++ cs) := by
  simp only [write]
  split
  · rfl
  · next h =>
    have hfit : (b.chars ++ cs).length - b.limit.toNat = 0 := by omega
    rw [lastChars, hfit, List.drop_zero]

/-- No more characters are kept than allowed. -/
theorem length_lastChars_le (limit : Int) (cs : List CodePoint) :
    (lastChars limit cs).length ≤ limit.toNat := by
  rw [lastChars, List.length_drop]
  omega

/-- What was dropped before makes no difference to the last characters. -/
theorem lastChars_append_lastChars (limit : Int) (cs ds : List CodePoint) :
    lastChars limit (lastChars limit cs ++ ds) = lastChars limit (cs ++ ds) := by
  have hle : cs.length - limit.toNat ≤ cs.length := Nat.sub_le ..
  rw [lastChars, lastChars, lastChars, ← List.drop_append_of_le_length hle, List.drop_drop,
    List.length_drop, List.length_append]
  congr 1
  omega

/-- **Texts written one after another leave the last characters of them all.** -/
theorem chars_writeAll (b : OutputBuffer) (texts : List (List CodePoint)) (h : b.chars.length ≤
    b.limit.toNat) :
    (b.writeAll texts).chars = lastChars b.limit (b.chars ++ texts.flatten) := by
  induction texts generalizing b with
  | nil =>
    have hfit : b.chars.length - b.limit.toNat = 0 := by omega
    rw [writeAll, List.foldl_nil, List.flatten_nil, List.append_nil, lastChars, hfit,
      List.drop_zero]
  | cons text rest ih =>
    have hnext : (b.write text).chars.length ≤ (b.write text).limit.toNat := by
      rw [chars_write, limit_write]
      exact length_lastChars_le ..
    show ((b.write text).writeAll rest).chars = _
    rw [ih _ hnext, chars_write, limit_write, lastChars_append_lastChars, List.append_assoc,
      List.flatten_cons]

@[simp] theorem limit_writeAll (b : OutputBuffer) (texts : List (List CodePoint)) :
    (b.writeAll texts).limit = b.limit := by
  induction texts generalizing b with
  | nil => rfl
  | cons text rest ih => exact (ih (b.write text)).trans (limit_write b text)

end OutputBuffer

end Conveyor
