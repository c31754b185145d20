import Conveyor.Command.Run
import Mathlib.Data.List.TakeWhile

/-!
# Images, scanned from left to right

What an image resolves to is told by a scan that never goes back: it takes a character, an
escaped dollar sign or a reference off what is left, and puts the text of a reference behind what
it has made so far, where it is not looked at again.

- `Placeholder.IsName`: names, of ASCII letters, digits and underscores.
- `Placeholder.Starts`, `Placeholder.Stray`: what a text starts with, and a dollar sign that
  starts nothing; `Placeholder.starts_dollar_iff` ties them to the pieces of an image.
- `Placeholder.Scan`, `Placeholder.Stops`: how far a scan has got, and why it cannot go on.
- `Placeholder.replace_iff`: **an image is resolved if the scan gets through, and refused where
  it stops**.
- `Placeholder.Part`: parts from which an image can be written; `Placeholder.scan_parts` reads
  them back.
- `resolved_images`: the same for the images of variants.
-/

namespace Conveyor

namespace Placeholder

/-! ## Pieces -/

/-- A name: a letter or an underscore, and then any of these and digits. -/
def IsName : List CodePoint → Prop
  | [] => False
  | c :: cs => startsName c = true ∧ ∀ d ∈ cs, continuesName d = true

/-- No name goes on here. -/
def EndsName (rest : List CodePoint) : Prop := ∀ c ∈ rest.head?, continuesName c = false

/-- What a text starts with, and what is left of it. -/
inductive Starts : List CodePoint → Piece → List CodePoint → Prop
  /-- A character that is not a dollar sign stands for itself. -/
  | char {c : CodePoint} {rest : List CodePoint} (plain : c ≠ '$') :
      Starts (c :: rest) (.char c) rest
  /-- Two dollar signs stand for one. -/
  | escape {rest : List CodePoint} : Starts (.char '$' :: .char '$' :: rest) (.char '$') rest
  /-- The longest name after a dollar sign is a reference. -/
  | named {name rest : List CodePoint} (isName : IsName name) (longest : EndsName rest) :
      Starts (.char '$' :: (name ++ rest)) (.ref (Text.ofList name)) rest
  /-- So is a name in braces. -/
  | braced {name rest : List CodePoint} (isName : IsName name) :
      Starts (.char '$' :: .char '\x7b' :: (name ++ .char '\x7d' :: rest))
      (.ref (Text.ofList name)) rest

/-- What is taken as a name is one, and the longest. -/
theorem takeName_eq_some {cs rest : List CodePoint} {name : Text} (h : takeName cs =
    some (name, rest)) :
    ∃ chars, IsName chars ∧ EndsName rest ∧ name = Text.ofList chars ∧ cs = chars ++ rest := by
  unfold takeName at h
  split at h
  · cases h
  · rename_i c cs
    split at h
    · rename_i hstart
      cases h
      refine ⟨c :: cs.takeWhile continuesName, ⟨hstart, fun d hd => List.mem_takeWhile_imp hd⟩,
        ?_, rfl, ?_⟩
      · intro d hd
        have hstop := List.head?_dropWhile_not continuesName cs
        rwa [Option.mem_def.1 hd] at hstop
      · rw [List.cons_append, List.takeWhile_append_dropWhile]
    · cases h

/-- A name is taken up to its end. -/
theorem takeName_append {name rest : List CodePoint} (h : IsName name) (hrest : EndsName rest) :
    takeName (name ++ rest) = some (Text.ofList name, rest) := by
  cases name with
  | nil => cases h
  | cons c cs =>
    have hstop : rest.takeWhile continuesName = [] ∧ rest.dropWhile continuesName = rest := by
      cases rest with
      | nil => exact ⟨rfl, rfl⟩
      | cons d rest =>
        have hd : continuesName d = false := hrest d rfl
        simp [hd]
    rw [List.cons_append, takeName, if_pos h.1, List.takeWhile_append_of_pos h.2,
      List.dropWhile_append_of_pos h.2, hstop.1, hstop.2, List.append_nil]

/-- **What follows a dollar sign**: all but a stray one start a piece. -/
theorem starts_dollar_iff {cs rest : List CodePoint} {piece : Piece} :
    Starts (.char '$' :: cs) piece rest ↔ piece ≠ .stray ∧ afterDollar cs = (piece, rest) := by
  constructor
  · intro h
    cases h with
    | char plain => exact absurd rfl plain
    | escape => exact ⟨Piece.noConfusion, rfl⟩
    | @named name rest isName longest =>
      refine ⟨Piece.noConfusion, ?_⟩
      have htake := takeName_append isName longest
      cases name with
      | nil => cases isName
      | cons c name =>
        have hstart : startsName c = true := isName.1
        unfold afterDollar
        split
        · rename_i r heq
          cases heq
          cases hstart
        · rename_i r heq
          cases heq
          cases hstart
        · rw [htake]
    | @braced name rest isName =>
      refine ⟨Piece.noConfusion, ?_⟩
      -- The closing brace ends the name, as any other character that no name contains.
      have hends : EndsName (.char '\x7d' :: rest) := by
        intro c hc
        obtain rfl : CodePoint.char '\x7d' = c := Option.some.inj hc
        rfl
      simp only [afterDollar, takeName_append isName hends]
  · rintro ⟨hpiece, h⟩
    unfold afterDollar at h
    split at h
    · cases h
      exact .escape
    · split at h
      · rename_i htake
        cases h
        obtain ⟨name, hname, -, rfl, rfl⟩ := takeName_eq_some htake
        exact .braced hname
      · cases h
        exact absurd rfl hpiece
    · split at h
      · rename_i htake
        cases h
        obtain ⟨name, hname, hends, rfl, rfl⟩ := takeName_eq_some htake
        exact .named hname hends
      · cases h
        exact absurd rfl hpiece

/-- A piece takes something off what is left. -/
theorem Starts.length_lt {cs rest : List CodePoint} {piece : Piece} (h : Starts cs piece rest) :
    rest.length < cs.length := by
  cases h with
  | char plain => exact Nat.lt_succ_self _
  | escape => simp only [List.length_cons]; omega
  | named isName longest => simp only [List.length_cons, List.length_append]; omega
  | braced isName => simp only [List.length_cons, List.length_append]; omega

/-- A dollar sign that starts nothing. -/
def Stray (cs : List CodePoint) : Prop := ∀ piece rest, ¬ Starts (.char '$' :: cs) piece rest

theorem Stray.afterDollar_eq {cs : List CodePoint} (h : Stray cs) :
    (afterDollar cs).1 = .stray := by
  by_contra hne
  exact h _ _ (starts_dollar_iff.2 ⟨hne, rfl⟩)

/-- A text is at its end, starts with a piece, or with a stray dollar sign. -/
theorem starts_or_stray (cs : List CodePoint) :
    cs = [] ∨ (∃ piece rest, piece ≠ .stray ∧ Starts cs piece rest) ∨
      ∃ rest, cs = .char '$' :: rest ∧
    Stray rest := by
  cases cs with
  | nil => exact .inl rfl
  | cons c rest =>
    refine .inr ?_
    by_cases hc : c = '$'
    · subst hc
      by_cases hstray : (afterDollar rest).1 = .stray
      · refine .inr ⟨rest, rfl, fun piece more hstarts => ?_⟩
        obtain ⟨hne, heq⟩ := starts_dollar_iff.1 hstarts
        rw [heq] at hstray
        exact hne hstray
      · exact .inl ⟨_, _, hstray, starts_dollar_iff.2 ⟨hstray, rfl⟩⟩
    · exact .inl ⟨_, _, Piece.noConfusion, .char hc⟩

/-! ## The pieces of an image -/

theorem length_afterDollar_le (cs : List CodePoint) : (afterDollar cs).2.length ≤ cs.length := by
  by_cases hstray : (afterDollar cs).1 = .stray
  · unfold afterDollar at hstray ⊢
    split at hstray
    · cases hstray
    · split at hstray
      · cases hstray
      · exact Nat.le_refl _
    · split at hstray
      · cases hstray
      · exact Nat.le_refl _
  · have hstarts : Starts (.char '$' :: cs) _ _ := starts_dollar_iff.2 ⟨hstray, rfl⟩
    exact Nat.le_of_lt_succ hstarts.length_lt

/-- More fuel changes nothing. -/
theorem piecesWith_eq {n fuel : Nat} {cs : List CodePoint} (hn : cs.length ≤ n)
    (hfuel : cs.length ≤ fuel) :
    piecesWith fuel cs = piecesWith n cs := by
  induction fuel generalizing n cs with
  | zero =>
    obtain rfl := List.length_eq_zero_iff.1 (Nat.le_zero.1 hfuel)
    cases n <;> rfl
  | succ fuel ih =>
    cases cs with
    | nil => cases n <;> rfl
    | cons c rest =>
      obtain ⟨m, rfl⟩ := Nat.exists_eq_succ_of_ne_zero
        (Nat.ne_of_gt (Nat.lt_of_lt_of_le (Nat.succ_pos _) hn))
      have hrest : rest.length ≤ m ∧ rest.length ≤ fuel :=
        ⟨Nat.le_of_succ_le_succ hn, Nat.le_of_succ_le_succ hfuel⟩
      by_cases hc : c = '$'
      · subst hc
        have hmore := length_afterDollar_le rest
        simp only [piecesWith]
        rw [ih (Nat.le_trans hmore hrest.1) (Nat.le_trans hmore hrest.2)]
      · simp only [piecesWith]
        rw [ih hrest.1 hrest.2]

theorem pieces_dollar (rest : List CodePoint) :
    pieces (.char '$' :: rest) = (afterDollar rest).1 :: pieces (afterDollar rest).2 := by
  show (afterDollar rest).1 :: piecesWith rest.length (afterDollar rest).2 = _
  rw [piecesWith_eq (Nat.le_refl _) (length_afterDollar_le rest)]
  rfl

/-- **An image is cut into what it starts with and the pieces of the rest.** -/
theorem Starts.pieces_eq {cs rest : List CodePoint} {piece : Piece} (h : Starts cs piece rest) :
    pieces cs = piece :: pieces rest := by
  by_cases hdollar : ∃ more, cs = .char '$' :: more
  · obtain ⟨more, rfl⟩ := hdollar
    rw [pieces_dollar, (starts_dollar_iff.1 h).2]
  · cases h with
    | char plain => simp only [pieces, List.length_cons, piecesWith]
    | escape => exact absurd ⟨_, rfl⟩ hdollar
    | named isName longest => exact absurd ⟨_, rfl⟩ hdollar
    | braced isName => exact absurd ⟨_, rfl⟩ hdollar

/-! ## Scanning -/

/-- A scan from left to right: what it has made so far, and what it has not looked at yet. -/
inductive Scan (bindings : Bindings) (image : List CodePoint) :
    List CodePoint → List CodePoint → Prop
  | start : Scan bindings image [] image
  | char {made left rest : List CodePoint} {c : CodePoint}
      (before : Scan bindings image made left)
      (starts : Starts left (.char c) rest) : Scan bindings image (made ++ [c]) rest
  | ref {made left rest : List CodePoint} {name text : Text}
    (before : Scan bindings image made left)
      (starts : Starts left (.ref name) rest) (bound : bindings.get? name = some text) :
      Scan bindings image (made ++ text.toList) rest

/-- Why a scan cannot go on: it meets a reference to a name that is not bound, or a dollar sign
that starts nothing. -/
inductive Stops (bindings : Bindings) (image : List CodePoint) : Fault → Prop
  | unbound {made left rest : List CodePoint} {name : Text}
      (before : Scan bindings image made left)
      (starts : Starts left (.ref name) rest) (free : bindings.get? name = none) :
      Stops bindings image (.unbound name)
  | stray {made front rest : List CodePoint}
      (before : Scan bindings image made (.char '$' :: rest))
      (stray : Stray rest) (place : image = front ++ .char '$' :: rest) :
      Stops bindings image (.stray (position (front ++ [.char '$'])).1
          (position (front ++ [.char '$'])).2)

variable {bindings : Bindings} {image made left : List CodePoint}

theorem Starts.exists_append {cs rest : List CodePoint} {piece : Piece}
    (h : Starts cs piece rest) :
    ∃ front, cs = front ++ rest := by
  cases h with
  | @char c _ _ => exact ⟨[c], rfl⟩
  | escape => exact ⟨[.char '$', .char '$'], rfl⟩
  | @named name _ _ _ => exact ⟨.char '$' :: name, rfl⟩
  | @braced name _ _ => exact ⟨.char '$' :: .char '\x7b' :: (name ++ [.char '\x7d']), by simp⟩

/-- What is left of an image is the end of it. -/
theorem Scan.exists_append (h : Scan bindings image made left) :
    ∃ front, image = front ++ left := by
  induction h with
  | start => exact ⟨[], rfl⟩
  | char _ starts ih =>
    obtain ⟨front, rfl⟩ := ih
    obtain ⟨more, rfl⟩ := starts.exists_append
    exact ⟨front ++ more, by simp⟩
  | ref _ starts _ ih =>
    obtain ⟨front, rfl⟩ := ih
    obtain ⟨more, rfl⟩ := starts.exists_append
    exact ⟨front ++ more, by simp⟩

/-- Every scan gets through, or stops. -/
theorem Scan.ends_or_stops (h : Scan bindings image made left) :
    (∃ all, Scan bindings image all []) ∨ ∃ fault, Stops bindings image fault := by
  induction hn : left.length using Nat.strong_induction_on generalizing made left with
  | _ n ih =>
    rcases starts_or_stray left with rfl | ⟨piece, rest, hpiece, hstarts⟩ | ⟨rest, rfl, hstray⟩
    · exact .inl ⟨made, h⟩
    · have hlt : rest.length < n := hn ▸ hstarts.length_lt
      cases piece with
      | char c => exact ih _ hlt (h.char hstarts) rfl
      | ref name =>
        cases hget : bindings.get? name with
        | none => exact .inr ⟨_, .unbound h hstarts hget⟩
        | some text => exact ih _ hlt (h.ref hstarts hget) rfl
      | stray => exact absurd rfl hpiece
    · obtain ⟨front, hplace⟩ := h.exists_append
      exact .inr ⟨_, .stray h hstray hplace⟩

/-! ## Replacing references -/

/-- What comes before stays before. -/
theorem replace_char (c : CodePoint) (rest : List Piece) :
    replace bindings image (.char c :: rest) = (replace bindings image rest).map ([c] ++ ·) := by
  rw [replace]
  cases replace bindings image rest <;> rfl

theorem replace_ref {name text : Text} (h : bindings.get? name = some text)
    (rest : List Piece) :
    replace bindings image (.ref name :: rest) =
      (replace bindings image rest).map (text.toList ++ ·) := by
  rw [replace, h]
  cases replace bindings image rest <;> rfl

/-- **What a scan has made comes before what becomes of the rest.** -/
theorem Scan.replace_eq (h : Scan bindings image made left) (whole : List CodePoint) :
    replace bindings whole (pieces image) = (replace bindings whole (pieces left)).map
      (made ++ ·) := by
  induction h with
  | start => cases replace bindings whole (pieces image) <;> rfl
  | char _ starts ih =>
    rw [ih, starts.pieces_eq, replace_char]
    cases replace bindings whole (pieces _) <;> simp [Except.map]
  | ref _ starts bound ih =>
    rw [ih, starts.pieces_eq, replace_ref bound]
    cases replace bindings whole (pieces _) <;> simp [Except.map]

/-! ## The place of a stray dollar sign -/

/-- More fuel changes nothing. -/
theorem strayAt_eq {n fuel : Nat} {cs : List CodePoint} (hn : cs.length ≤ n)
    (hfuel : cs.length ≤ fuel) :
    strayAt fuel cs = strayAt n cs := by
  -- On the fuel: both readings take the same step as long as it suffices.
  induction fuel generalizing n cs with
  | zero =>
    obtain rfl := List.length_eq_zero_iff.1 (Nat.le_zero.1 hfuel)
    cases n <;> rfl
  | succ fuel ih =>
    cases cs with
    | nil => cases n <;> rfl
    | cons c rest =>
      obtain ⟨m, rfl⟩ := Nat.exists_eq_succ_of_ne_zero
        (Nat.ne_of_gt (Nat.lt_of_lt_of_le (Nat.succ_pos _) hn))
      have hrest : rest.length ≤ m ∧ rest.length ≤ fuel :=
        ⟨Nat.le_of_succ_le_succ hn, Nat.le_of_succ_le_succ hfuel⟩
      by_cases hc : c = '$'
      · subst hc
        have hmore := length_afterDollar_le rest
        have hlater := ih (Nat.le_trans hmore hrest.1) (Nat.le_trans hmore hrest.2)
        simp only [strayAt]
        split
        · rfl
        · rename_i heq
          rw [heq] at hlater
          rw [hlater]
      · simp only [strayAt]
        rw [ih hrest.1 hrest.2]

theorem strayAt_dollar {rest more : List CodePoint} {piece : Piece}
    (h : Starts (.char '$' :: rest) piece more) :
    strayAt (.char '$' :: rest).length (.char '$' :: rest) =
      1 + (rest.length - more.length) + strayAt more.length more := by
  obtain ⟨hpiece, hafter⟩ := starts_dollar_iff.1 h
  have hmore : more.length ≤ rest.length := Nat.le_of_lt_succ h.length_lt
  have hfuel : strayAt rest.length more = strayAt more.length more :=
    strayAt_eq (Nat.le_refl _) hmore
  rw [← hfuel]
  simp only [List.length_cons, strayAt]
  rw [hafter]
  cases piece with
  | stray => exact absurd rfl hpiece
  | char c => rfl
  | ref name => rfl

/-- A stray dollar sign in the rest is as far on as the rest. -/
theorem Starts.strayAt_eq {cs rest : List CodePoint} {piece : Piece} (h : Starts cs piece rest) :
    strayAt cs.length cs = cs.length - rest.length + strayAt rest.length rest := by
  have hlt := h.length_lt
  by_cases hdollar : ∃ more, cs = .char '$' :: more
  · obtain ⟨more, rfl⟩ := hdollar
    have hsplit : (.char '$' :: more).length - rest.length =
        1 + (more.length - rest.length) := by
      rw [List.length_cons] at hlt ⊢
      omega
    rw [strayAt_dollar h, hsplit]
  · cases h with
    | char plain => simp only [List.length_cons, strayAt, Nat.add_sub_cancel_left]
    | escape => exact absurd ⟨_, rfl⟩ hdollar
    | named isName longest => exact absurd ⟨_, rfl⟩ hdollar
    | braced isName => exact absurd ⟨_, rfl⟩ hdollar

/-- **The place of the first stray dollar sign** is after all that the scan got through. -/
theorem Scan.strayAt_eq (h : Scan bindings image made left) :
    strayAt image.length image = image.length - left.length + strayAt left.length left := by
  have hstep : ∀ {left rest : List CodePoint} {piece : Piece}, Starts left piece rest →
      left.length ≤ image.length →
      strayAt image.length image = image.length - left.length + strayAt left.length left →
      strayAt image.length image = image.length - rest.length + strayAt rest.length rest := by
    intro left rest piece starts hle heq
    have hlt := starts.length_lt
    rw [heq, starts.strayAt_eq]
    omega
  have hle : ∀ {made left : List CodePoint}, Scan bindings image made left →
      left.length ≤ image.length := by
    intro made left hscan
    obtain ⟨front, rfl⟩ := hscan.exists_append
    simp
  induction h with
  | start => simp
  | char before starts ih => exact hstep starts (hle before) ih
  | ref before starts _ ih => exact hstep starts (hle before) ih

theorem strayFault_of_scan {front rest : List CodePoint}
    (h : Scan bindings image made (.char '$' :: rest))
    (hstray : Stray rest) (hplace : image = front ++ .char '$' :: rest) :
    strayFault image = .stray (position (front ++ [.char '$'])).1
    (position (front ++ [.char '$'])).2 := by
  have hone : strayAt (.char '$' :: rest).length (.char '$' :: rest) = 1 := by
    have hafter := hstray.afterDollar_eq
    simp only [List.length_cons, strayAt]
    generalize afterDollar rest = after at hafter ⊢
    obtain ⟨piece, more⟩ := after
    obtain rfl : piece = .stray := hafter
    rfl
  have hlength : image.length - (.char '$' :: rest).length + 1 = front.length + 1 := by
    rw [hplace, List.length_append, Nat.add_sub_cancel]
  have htake : image.take (front.length + 1) = front ++ [.char '$'] := by
    rw [hplace, List.take_append, List.take_of_length_le (Nat.le_succ _),
      Nat.add_sub_cancel_left]
    rfl
  unfold strayFault
  rw [h.strayAt_eq, hone, hlength, htake]

/-! ## Images -/

/-- **A scan that gets through tells what the image becomes, and one that stops tells the
fault.** -/
theorem replace_iff : (∀ all, replace bindings image (pieces image) = .ok all ↔
    Scan bindings image all []) ∧
    ∀ fault, replace bindings image (pieces image) = .error fault ↔
    Stops bindings image fault := by
  have hok : ∀ {all}, Scan bindings image all [] → replace bindings image (pieces image) =
      .ok all := by
    intro all h
    rw [h.replace_eq]
    show Except.ok (all ++ []) = Except.ok all
    rw [List.append_nil]
  have herror : ∀ {fault}, Stops bindings image fault →
      replace bindings image (pieces image) = .error fault := by
    intro fault h
    cases h with
    | unbound before starts free =>
      rw [before.replace_eq, starts.pieces_eq, replace, free]
      rfl
    | stray before stray place =>
      rw [before.replace_eq, pieces_dollar, stray.afterDollar_eq, replace,
        strayFault_of_scan before stray place]
      rfl
  -- Both directions follow from this: every text scans to its end or stops, and never does both.
  have hends : (∃ all, Scan bindings image all []) ∨ ∃ fault, Stops bindings image fault :=
    Scan.start.ends_or_stops
  refine ⟨fun all => ⟨fun h => ?_, hok⟩, fun fault => ⟨fun h => ?_, herror⟩⟩
  · rcases hends with ⟨all', hscan⟩ | ⟨fault, hstops⟩
    · rw [hok hscan] at h
      obtain rfl := Except.ok.inj h
      exact hscan
    · rw [herror hstops] at h
      cases h
  · rcases hends with ⟨all, hscan⟩ | ⟨fault', hstops⟩
    · rw [hok hscan] at h
      cases h
    · rw [herror hstops] at h
      obtain rfl := Except.error.inj h
      exact hstops

/-- The fault of an image of a job. -/
def Fault.ofImage (jobId image : Text) : Fault → ExpansionFault
  | .unbound name => .unboundPlaceholder jobId image name
  | .stray line column => .malformedPlaceholder jobId image line column

/-! ## Writing images -/

/-- A part of an image: a text that stands for itself, or the name of another text. -/
inductive Part where
  | literal (text : Text)
  | reference (name text : Text)

namespace Part

/-- How a part is written: with its dollar signs doubled, or as the name in braces. -/
def written : Part → List CodePoint
  | literal text =>
    text.toList.flatMap fun c => if c = CodePoint.char '$' then [.char '$', .char '$'] else [c]
  | reference name _ => .char '$' :: .char '\x7b' :: (name.toList ++ [.char '\x7d'])

/-- The text that a part stands for. -/
def meant : Part → List CodePoint
  | literal text => text.toList
  | reference _ text => text.toList

/-- What is referred to by a name is bound to it. -/
def Bound (bindings : Bindings) : Part → Prop
  | literal _ => True
  | reference name text => IsName name.toList ∧ bindings.get? name = some text

end Part

/-- A scan gets through a text whose dollar signs are doubled. -/
theorem scan_literal {text rest : List CodePoint}
    (h : Scan bindings image made ((text.flatMap fun c => if c = CodePoint.char '$' then
        [.char '$', .char '$'] else [c]) ++
        rest)) :
    Scan bindings image (made ++ text) rest := by
  induction text generalizing made with
  | nil =>
    rw [List.append_nil]
    exact h
  | cons c text ih =>
    rw [List.flatMap_cons, List.append_assoc] at h
    rw [← List.singleton_append, ← List.append_assoc]
    refine ih ?_
    by_cases hc : c = '$'
    · subst hc
      rw [if_pos rfl] at h
      exact h.char .escape
    · rw [if_neg hc] at h
      exact h.char (.char hc)

/-- A scan gets through a part and makes of it what it stands for. -/
theorem scan_part {p : Part} {rest : List CodePoint} (hp : p.Bound bindings)
    (h : Scan bindings image made (p.written ++ rest)) :
    Scan bindings image (made ++ p.meant) rest := by
  cases p with
  | literal text => exact scan_literal h
  | reference name text =>
    obtain ⟨hname, hbound⟩ := hp
    have hstarts : Starts (.char '$' :: .char '\x7b' :: (name.toList ++ .char '\x7d' :: rest))
        _ rest :=
      .braced hname
    rw [Text.ofList_toList] at hstarts
    refine h.ref ?_ hbound
    rw [Part.written, List.cons_append, List.cons_append, List.append_assoc]
    exact hstarts

/-- **An image that is written from parts is read as what they stand for.** -/
theorem scan_parts {parts : List Part} (hparts : ∀ p ∈ parts, p.Bound bindings)
    {rest : List CodePoint}
    (h : Scan bindings image made (parts.flatMap Part.written ++ rest)) :
    Scan bindings image (made ++ parts.flatMap Part.meant) rest := by
  induction parts generalizing made with
  | nil =>
    rw [List.flatMap_nil, List.append_nil]
    exact h
  | cons p parts ih =>
    rw [List.flatMap_cons, List.append_assoc] at h
    rw [List.flatMap_cons, ← List.append_assoc]
    exact ih (fun q hq => hparts q (List.mem_cons_of_mem p hq))
      (scan_part (hparts p List.mem_cons_self) h)

/-- A text without dollar signs is written as it is. -/
theorem written_literal {text : Text} (h : CodePoint.char '$' ∉ text.toList) :
    (Part.literal text).written = text.toList := by
  have hplain : ∀ c ∈ text.toList, (if c = '$' then [.char '$', .char '$'] else [c]) = [c] :=
    fun c hc => if_neg fun heq : c = '$' => h (heq ▸ hc)
  rw [Part.written, List.flatMap_def, List.map_congr_left hplain, ← List.flatMap_def]
  exact List.flatMap_singleton' _

end Placeholder

/-! ## Images of variants -/

open Placeholder

variable {bindings : Bindings} {image jobId : Text}

/-- An image is resolved if the scan gets through. -/
theorem resolveImage_eq_ok_iff {resolved : Option Text} :
    resolveImage (some image) bindings jobId = .ok resolved ↔
      ∃ made, Scan bindings image.toList made [] ∧ resolved = some (Text.ofList made) := by
  simp only [← replace_iff.1, resolveImage, substitute, bind, Except.bind]
  cases replace bindings image.toList (pieces image.toList) with
  | ok made =>
    constructor
    · rintro ⟨⟩
      exact ⟨made, rfl, rfl⟩
    · rintro ⟨_, ⟨⟩, rfl⟩
      rfl
  | error fault => cases fault <;> simp

/-- An image is refused where the scan stops. -/
theorem resolveImage_eq_error_iff {fault : ExpansionFault} :
    resolveImage (some image) bindings jobId = .error fault ↔
      ∃ why, Stops bindings image.toList why ∧ fault = why.ofImage jobId image := by
  simp only [← replace_iff.2, resolveImage, substitute, bind, Except.bind]
  cases replace bindings image.toList (pieces image.toList) with
  | ok made => simp
  | error why => cases why <;> simp [Fault.ofImage, eq_comm]

/-- An image that is written from parts resolves to what they stand for. -/
theorem resolveImage_parts {parts : List Part} (h : ∀ p ∈ parts, p.Bound bindings) :
    resolveImage (some (Text.ofList (parts.flatMap Part.written))) bindings jobId =
      .ok (some (Text.ofList (parts.flatMap Part.meant))) := by
  refine resolveImage_eq_ok_iff.2 ⟨_, ?_, rfl⟩
  rw [Text.toList_ofList]
  have hstart : Scan bindings (parts.flatMap Part.written) [] (parts.flatMap Part.written) :=
    .start
  rw [← List.append_nil (parts.flatMap Part.written)] at hstart ⊢
  exact scan_parts h hstart

/-- **An image stands for what it is written from.** Doubled dollar signs and names in braces are
read back, and the texts of names are not scanned again. Any image is refused just where a scan
from left to right meets a name that is not bound or a dollar sign that starts nothing; a refusal
is an error in what the user configured. An image without dollar signs stays as it is. -/
theorem resolved_images (bindings : Bindings) (jobId : Text) :
    (∀ parts : List Part, (∀ p ∈ parts, p.Bound bindings) →
      resolveImage (some (Text.ofList (parts.flatMap Part.written))) bindings jobId =
        .ok (some (Text.ofList (parts.flatMap Part.meant)))) ∧
    ∀ image : Text,
      (∀ resolved, resolveImage (some image) bindings jobId = .ok resolved ↔
        ∃ made, Scan bindings image.toList made [] ∧ resolved = some (Text.ofList made)) ∧
      (∀ fault, resolveImage (some image) bindings jobId = .error fault ↔
        ∃ why, Stops bindings image.toList why ∧ fault = why.ofImage jobId image) ∧
      (∀ fault, resolveImage (some image) bindings jobId = .error fault →
        (CommandFault.run (.expansion fault)).isConfiguration = true) ∧
      (CodePoint.char '$' ∉ image.toList → resolveImage (some image) bindings jobId =
          .ok (some image)) := by
  refine ⟨fun parts => resolveImage_parts, fun image => ?_⟩
  refine ⟨fun resolved => resolveImage_eq_ok_iff, fun fault => resolveImage_eq_error_iff,
    fun _ _ => rfl, ?_⟩
  intro hplain
  have hparts := @resolveImage_parts bindings jobId [.literal image]
    fun p hp => by rw [List.mem_singleton.1 hp]; trivial
  rw [List.flatMap_singleton, List.flatMap_singleton, written_literal hplain] at hparts
  simpa [Part.meant] using hparts

/-- The text of a name may have dollar signs of its own. -/
theorem resolved_images_escaped :
    resolveImage (some "a$$b/$\x7bname\x7d:1") [("name", "x$$y")] "job" =
    .ok (some "a$b/x$$y:1") ∧
      (∃ fault, resolveImage (some "a$$$") [] "job" = .error fault ∧
        (CommandFault.run (.expansion fault)).isConfiguration = true) ∧
      resolveImage (some "python:3.12") [] "job" = .ok (some "python:3.12") := by
  let parts : List Part := [.literal "a$b/", .reference "name" "x$$y", .literal ":1"]
  have hbound : ∀ p ∈ parts, p.Bound [("name", "x$$y")] := by
    intro p hp
    simp only [parts, List.mem_cons, List.not_mem_nil, or_false] at hp
    rcases hp with rfl | rfl | rfl
    · trivial
    · exact ⟨⟨by decide, by decide⟩, rfl⟩
    · trivial
  have hwritten : Text.ofList (parts.flatMap Part.written) = "a$$b/$\x7bname\x7d:1" := by
    decide +kernel
  have hmeant : Text.ofList (parts.flatMap Part.meant) = "a$b/x$$y:1" := by decide +kernel
  have hstray : resolveImage (some "a$$$") [] "job" =
      .error (.malformedPlaceholder "job" "a$$$" 1 4) := by
    decide +kernel
  refine ⟨?_, ⟨_, hstray, ((resolved_images [] "job").2 _).2.2.1 _ hstray⟩,
    ((resolved_images [] "job").2 _).2.2.2 (by decide)⟩
  rw [← hwritten, ← hmeant]
  exact (resolved_images [("name", "x$$y")] "job").1 parts hbound

end Conveyor
