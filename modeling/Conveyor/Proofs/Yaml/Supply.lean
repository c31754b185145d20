import Conveyor.Yaml.Decode
import Mathlib.Data.List.Basic
import Mathlib.Tactic.SplitIfs

/-!
# Files that are no text

A short file is decoded as a whole before anything is made of it, so if it is not UTF-8, that is
what is found.

- `Utf8.State.pending`, `Utf8.length_run`: a decoder emits no more characters than it takes
  bytes, and fewer if a character is unfinished.
- `Yaml.Excerpt.ofBytes_of_illFormed`: nothing is read of such a file.
- `Yaml.decode_of_illFormed`: **a short file that is not UTF-8 stands for no value**, and the
  fault says why.
-/

namespace Conveyor

namespace Text.Utf8

/-- A character that has begun and is not complete. -/
def State.pending : State → Nat
  | .ready => 0
  | .inside .. => 1

theorem length_lead (b : Nat) : (lead b).2.length + (lead b).1.pending = 1 := by
  have both {c : Prop} [Decidable c] {x y : State × List (Option Char)}
      (hx : x.2.length + x.1.pending = 1) (hy : y.2.length + y.1.pending = 1) :
      (if c then x else y).2.length + (if c then x else y).1.pending = 1 := by
    split
    · exact hx
    · exact hy
  unfold lead
  -- One branch for each range of lead bytes.
  iterate 9 refine both rfl ?_
  rfl

theorem length_step (s : State) (b : UInt8) :
    (step s b).2.length + (step s b).1.pending ≤ 1 + s.pending := by
  cases s with
  | ready => exact Nat.le_of_eq (length_lead b.toNat)
  | inside left lo hi code =>
    simp only [step]
    split_ifs
    · exact Nat.le_succ 1
    · exact Nat.le_succ 1
    · have hlead := length_lead b.toNat
      generalize lead b.toNat = next at hlead
      have hpending : (State.inside left lo hi code).pending = 1 := rfl
      rw [List.length_cons, hpending]
      dsimp only
      omega

/-- A decoder emits no more characters than it takes bytes. -/
theorem length_run (s : State) (bs : List UInt8) :
    (run s bs).2.length + (run s bs).1.pending ≤ bs.length + s.pending := by
  induction bs generalizing s with
  | nil => simp [run]
  | cons b bs ih =>
    have hstep := length_step s b
    have hrest := ih (step s b).1
    simp only [run, List.length_append, List.length_cons]
    omega

end Text.Utf8

namespace Yaml

open Text

theorem length_plainNewlines (cs : List Char) : (plainNewlines cs).length ≤ cs.length := by
  fun_induction plainNewlines cs with
  | case1 => exact Nat.le_refl _
  | case2 rest ih =>
    simp only [List.length_cons]
    omega
  | case3 rest _ ih =>
    simp only [List.length_cons]
    omega
  | case4 c rest _ _ ih =>
    simp only [List.length_cons]
    omega

theorem length_of_mapM {out : List (Option Char)} {cs : List Char} (h : out.mapM id = some cs) :
    cs.length = out.length := by
  induction out generalizing cs with
  | nil =>
    cases h
    rfl
  | cons c out ih =>
    cases c with
    | none => cases h
    | some c =>
      rw [List.mapM_cons] at h
      obtain ⟨d, hd, h⟩ := Option.bind_eq_some_iff.1 h
      obtain ⟨rest, hrest, h⟩ := Option.bind_eq_some_iff.1 h
      cases h
      rw [List.length_cons, List.length_cons, ih hrest]

namespace Supply

/-- At the end of a file an unfinished character is a fault. -/
theorem decodePortion_end {s : Supply} (hbytes : s.bytes = []) (hdecoder : Utf8.flush s.decoder =
    [none])
    (wanted : Nat) : s.decodePortion wanted = .error .notText := by
  simp only [decodePortion, hbytes, List.take_nil, List.isEmpty_nil, Utf8.run, hdecoder]
  rfl

/-- More is decoded for a block that is not full. -/
theorem fillWith_succ {s : Supply} (hended : s.ended = false) (hready : s.ready.length <
    blockLength)
    (fuel : Nat) :
    s.fillWith (fuel + 1) =
      s.decodePortion (blockLength - s.ready.length) >>= fun s' => s'.fillWith fuel := by
  rw [fillWith, hended, Bool.false_or, if_neg (by simpa using hready)]

/-- At the end of a file no block is given out in front of an unfinished character, unless it is
full. -/
theorem fillWith_end {s : Supply} (hbytes : s.bytes = []) (hdecoder : Utf8.flush s.decoder =
    [none])
    (hended : s.ended = false) (fuel : Nat) :
    s.fillWith (fuel + 1) = .error .notText ∨
      blockLength ≤ s.ready.length ∧ s.fillWith (fuel + 1) = .ok s := by
  by_cases hready : s.ready.length < blockLength
  · left
    rw [fillWith_succ hended hready, decodePortion_end hbytes hdecoder]
    rfl
  · right
    refine ⟨Nat.le_of_not_lt hready, ?_⟩
    rw [fillWith, if_pos (by simpa using Or.inr hready)]

theorem block_of_fault {s : Supply} {fault : Fault}
    (h : s.fillWith (s.bytes.length + 2) = .error fault) : s.block = .error fault := by
  rw [block, h]
  rfl

/-- A portion that is all there is left, with or without an ill-formed part. -/
theorem decodePortion_rest {s : Supply} {wanted : Nat} (hsome : s.bytes ≠ [])
    (hshort : s.bytes.length ≤ s.portionFor wanted) (hheld : s.held = false) :
    s.decodePortion wanted = .error .notText ∨
      ∃ s' cs, s.decodePortion wanted = .ok s' ∧
        (Utf8.run s.decoder s.bytes).2.mapM id = some cs ∧ s'.bytes = [] ∧
        s'.decoder = (Utf8.run s.decoder s.bytes).1 ∧ s'.ended = false ∧
        s'.ready.length ≤ s.ready.length + cs.length := by
  have hfinal : s.bytes.isEmpty = false := List.isEmpty_eq_false_iff.2 hsome
  have htake := List.take_of_length_le hshort
  simp only [decodePortion, htake, hfinal, hheld, Bool.false_eq_true, if_false]
  cases hout : (Utf8.run s.decoder s.bytes).2.mapM id with
  | none => exact .inl rfl
  | some cs =>
    refine .inr ⟨_, cs, rfl, rfl, List.drop_length, rfl, rfl, ?_⟩
    rw [List.length_append]
    refine Nat.add_le_add_left (Nat.le_trans (length_plainNewlines _) ?_) _
    split
    · rw [List.length_dropLast]
      exact Nat.sub_le _ _
    · exact Nat.le_refl _

end Supply

/-- A text that is ill formed has an ill-formed part, or ends inside a character. -/
theorem flush_of_illFormed {bytes : List UInt8} {cs : List Char}
    (hout : (Utf8.run .start bytes).2.mapM id = some cs) (h : Utf8.decodeStrict? bytes = none) :
    Utf8.flush (Utf8.run .start bytes).1 = [none] ∧ (Utf8.run .start bytes).1.pending = 1 := by
  simp only [Utf8.decodeStrict?] at h
  cases hstate : (Utf8.run .start bytes).1 with
  | ready =>
    rw [hstate, Utf8.flush, List.append_nil, hout] at h
    cases h
  | inside left lo hi code => exact ⟨rfl, rfl⟩

namespace Supply

/-- The first portion of a short file is all of it. -/
theorem decodePortion_start {bytes : List UInt8} (hsome : bytes ≠ [])
    (hshort : bytes.length ≤ leastPortion) :
    (start bytes).decodePortion blockLength = .error .notText ∨
      ∃ s cs, (start bytes).decodePortion blockLength = .ok s ∧
        (Utf8.run .start bytes).2.mapM id = some cs ∧ s.bytes = [] ∧
        s.decoder = (Utf8.run .start bytes).1 ∧ s.ended = false ∧ s.ready.length ≤
        cs.length := by
  have hfits : (start bytes).bytes.length ≤ (start bytes).portionFor blockLength := hshort
  rcases decodePortion_rest (s := start bytes) hsome hfits rfl with
    hfault | ⟨s, cs, hportion, hout, hbytes, hdecoder, hended, hready⟩
  · exact .inl hfault
  · rw [show (start bytes).ready.length = 0 from rfl, Nat.zero_add] at hready
    exact .inr ⟨s, cs, hportion, hout, hbytes, hdecoder, hended, hready⟩

theorem fillWith_start (bytes : List UInt8) :
    (start bytes).fillWith (bytes.length + 2) =
      (start bytes).decodePortion blockLength >>= fun s => s.fillWith (bytes.length + 1) := by
  have hempty : (start bytes).ready.length < blockLength := Nat.zero_lt_succ _
  exact fillWith_succ rfl hempty _

/-- The first two blocks of a short file that is not UTF-8 cannot be read. If only its last
character is unfinished, the file ends before the second block is full. -/
theorem blocks_of_illFormed {bytes : List UInt8} (hshort : bytes.length ≤ leastPortion)
    (h : Utf8.decodeStrict? bytes = none) :
    (start bytes).block = .error .notText ∨
      ∃ cs s, (start bytes).block = .ok (cs, s) ∧ s.block = .error .notText := by
  have hsome : bytes ≠ [] := by
    rintro rfl
    cases h
  have hfill := fillWith_start bytes
  rcases decodePortion_start hsome hshort with
    hfault | ⟨s, cs, hportion, hout, hbytes, hdecoder, hended, hready⟩
  · -- There is an ill-formed part, and it is in the first portion.
    left
    rw [hfault] at hfill
    exact block_of_fault hfill
  · obtain ⟨hflush, hpending⟩ := flush_of_illFormed hout h
    rw [hportion] at hfill
    rw [← hdecoder] at hflush
    rcases fillWith_end hbytes hflush hended bytes.length with hfault | ⟨hfull, hok⟩
    · exact .inl (block_of_fault (hfill.trans hfault))
    · have hfirst : (start bytes).block =
          .ok (s.ready.take blockLength, { s with ready := s.ready.drop blockLength }) := by
        rw [block, show (start bytes).bytes.length = bytes.length from rfl, hfill]
        show (s.fillWith (bytes.length + 1) >>= _) = _
        rw [hok]
        rfl
      refine .inr ⟨_, _, hfirst, block_of_fault ?_⟩
      -- A character is unfinished, so there are fewer characters than bytes.
      have hlength : cs.length < leastPortion := by
        have hrun := Utf8.length_run .start bytes
        rw [hpending, ← length_of_mapM hout] at hrun
        exact Nat.lt_of_lt_of_le hrun hshort
      have hrest : (s.ready.drop blockLength).length < blockLength := by
        rw [List.length_drop, Nat.sub_lt_iff_lt_add hfull]
        exact Nat.lt_of_le_of_lt hready hlength
      -- The second block is therefore not full when the file ends.
      rcases fillWith_end (s := { s with ready := s.ready.drop blockLength }) hbytes
          hflush hended
        (s.bytes.length + 1) with hfault | ⟨hfull', -⟩
      · exact hfault
      · exact absurd hrest (Nat.not_lt_of_le hfull')

end Supply

/-- Nothing is read of a file whose first two blocks cannot be read. -/
theorem Excerpt.ofBytes_of_fault {bytes : List UInt8} {fault : Fault}
    (h : (do
      let (first, s) ← (Supply.start bytes).block
      let (second, s) ← s.block
      Except.ok (first ++ second, s) : Except Fault (List Char × Supply)) = .error fault) :
    Excerpt.ofBytes bytes = ⟨[], some fault⟩ := by
  unfold Excerpt.ofBytes
  dsimp only
  rw [h]

/-- Nothing is read of a short file that is not UTF-8. -/
theorem Excerpt.ofBytes_of_illFormed {bytes : List UInt8} (hshort : bytes.length ≤
    Supply.leastPortion)
    (h : Utf8.decodeStrict? bytes = none) : Excerpt.ofBytes bytes = ⟨[], some .notText⟩ := by
  rcases Supply.blocks_of_illFormed hshort h with hfault | ⟨cs, s, hfirst, hsecond⟩
  · refine ofBytes_of_fault ?_
    rw [hfault]
    rfl
  · refine ofBytes_of_fault ?_
    rw [hfirst]
    show (s.block >>= _) = _
    rw [hsecond]
    rfl

/-- **A short file that is not UTF-8 stands for no value.** -/
theorem decode_of_illFormed {bytes : List UInt8} (hshort : bytes.length ≤ Supply.leastPortion)
    (h : Utf8.decodeStrict? bytes = none) : decode bytes = .error .notText := by
  rw [decode, Excerpt.ofBytes_of_illFormed hshort h]
  rfl

end Yaml

end Conveyor
