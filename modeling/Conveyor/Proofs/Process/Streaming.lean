import Conveyor.Activity.Moment
import Conveyor.Process.Basic
import Conveyor.Proofs.Text.Decoding
import Mathlib.Algebra.GroupWithZero.Nat

/-!
# What is kept of the output of a process

A process writes in chunks, the chunks are decoded one after another, and the texts go into a
buffer that forgets all but the last characters. What is kept in the end depends only on the
bytes.

- `OutputBuffer.ofText`: a buffer into which a whole text was written at once.
- `ProcessPlay.output`, `ProcessPlay.deliveredWithin`: the bytes that a process writes, and those
  that it has written after some time.
- `Host.bounded_output`: **the buffer holds the end of the text of these bytes**, and a process
  is killed, once, just if it is interrupted.
-/

namespace Conveyor

/-! ## The buffer -/

namespace OutputBuffer

/-- A buffer with the end of a text. -/
def ofText (limit : Int) (text : List CodePoint) : OutputBuffer :=
  ⟨limit, lastChars limit text, decide (limit < text.length)⟩

theorem empty_eq_ofText {limit : Int} (h : 0 ≤ limit) : empty limit = ofText limit [] := by
  have hfits : decide (limit < ([] : List CodePoint).length) = false :=
    decide_eq_false (by simpa using h)
  rw [ofText, hfits, lastChars, List.drop_nil]
  rfl

theorem truncated_write (b : OutputBuffer) (cs : List CodePoint) :
    (b.write cs).truncated = (b.truncated || decide (b.limit < (b.chars ++ cs).length)) := by
  simp only [write]
  split
  · next h => rw [decide_eq_true h, Bool.or_true]
  · next h => rw [decide_eq_false h, Bool.or_false]

/-- Writing goes on as if the text had been written at once. -/
theorem write_ofText {limit : Int} (h : 0 ≤ limit) (text cs : List CodePoint) :
    (ofText limit text).write cs = ofText limit (text ++ cs) := by
  have hchars : ((ofText limit text).write cs).chars = lastChars limit (text ++ cs) := by
    rw [chars_write]
    exact lastChars_append_lastChars limit text cs
  have htruncated : ((ofText limit text).write cs).truncated =
      decide (limit < (text ++ cs).length) := by
    rw [truncated_write, ofText, ← Bool.decide_or, decide_eq_decide]
    simp only [lastChars, List.length_append, List.length_drop]
    omega
  have hlimit : ((ofText limit text).write cs).limit = limit := limit_write _ cs
  generalize (ofText limit text).write cs = b at hchars htruncated hlimit
  calc b = ⟨b.limit, b.chars, b.truncated⟩ := rfl
    _ = ofText limit (text ++ cs) := by rw [hlimit, hchars, htruncated, ofText]

end OutputBuffer

/-! ## The bytes of a process -/

/-- The bytes that an event brings. -/
def ProcessEvent.bytes : ProcessEvent → List UInt8
  | .out bytes | .err bytes => bytes
  | .pause _ | .signal => []

/-- The time that an event takes. -/
def ProcessEvent.span : ProcessEvent → Nat
  | .pause span => span
  | .out _ | .err _ | .signal => 0

/-- The bytes that some events bring. -/
def outputOf (events : List ProcessEvent) : List UInt8 := events.flatMap ProcessEvent.bytes

/-- The time that some events take. -/
def durationOf (events : List ProcessEvent) : Nat := (events.map ProcessEvent.span).sum

/-- The bytes that some events bring until a time, counted from the first of them. -/
def deliveredUntil : Nat → List ProcessEvent → List UInt8
  | _, [] => []
  | time, e :: rest =>
    if time < e.span then [] else e.bytes ++ deliveredUntil (time - e.span) rest

namespace ProcessPlay

/-- All bytes that a process writes. -/
def output (p : ProcessPlay) : List UInt8 := outputOf p.events

/-- How long a process takes. -/
def duration (p : ProcessPlay) : Nat := durationOf p.events

/-- The bytes that a process has written after some time. -/
def deliveredWithin (p : ProcessPlay) (time : Nat) : List UInt8 := deliveredUntil time p.events

end ProcessPlay

/-- The kills among some notes: each of a whole group, or of the process alone. -/
def killsAmong (notes : List TimedNote) : List Bool :=
  notes.filterMap fun
    | (_, .killed group) => some group
    | _ => none

/-! ## Waits -/

namespace Moment

/-- A wait that is over before the interruption is not cut short. -/
theorem cutTime?_eq_none {m : Moment} {span : Nat}
    (h : ∀ t, m.interruptAt = some t → m.now + span ≤ t) : m.cutTime? span = none := by
  unfold cutTime?
  split
  · rfl
  · split
    · next t ht => exact if_neg (Nat.not_lt_of_le (h t ht))
    · rfl

/-- A wait during which the interruption comes is cut short. -/
theorem afterWait_eq_cut {m : Moment} {span t : Nat} (hcut : m.wasCut = false)
    (hat : m.interruptAt = some t) (hnow : m.now ≤ t) (hsoon : t < m.now + span) :
    m.afterWait span = (true, { m with now := t, wasCut := true }) := by
  have htime : m.cutTime? span = some t := by
    rw [cutTime?, hcut, hat]
    simp only [Bool.false_eq_true, if_false, if_pos hsoon, Nat.max_eq_left hnow]
  rw [afterWait, htime]

end Moment

/-! ## Streaming -/

namespace ProcessPlay

open Activity OutputBuffer
open Text.Utf8 (State flush shown shown_append shown_nil)

variable (killsGroups : Bool) (exitCode : Int) {limit : Int} {m : Moment}

/-- An event that is not cut short: its bytes are decoded and written, and its time passes. -/
theorem run_event (hlimit : 0 ≤ limit) (text : List CodePoint) (s : State) (e : ProcessEvent)
    (rest : List ProcessEvent) (hcut : m.cutTime? e.span = none) :
    ∃ m' notes, m'.now = m.now + e.span ∧ m'.interruptAt = m.interruptAt ∧ m'.wasCut = m.wasCut ∧
      killsAmong notes = [] ∧
      (collect (ofText limit text) (streamFrom killsGroups exitCode s (e :: rest))).run m =
        let o := (collect (ofText limit (text ++ shown (Text.Utf8.run s e.bytes).2))
          (streamFrom killsGroups exitCode (Text.Utf8.run s e.bytes).1 rest)).run m'
        { o with notes := notes ++ o.notes } := by
  have hquiet (e : ProcessEvent) (h : e.bytes = []) :
      text ++ shown (Text.Utf8.run s e.bytes).2 = text := by
    rw [h]
    exact List.append_nil text
  -- Only a pause takes time and can be cut, and only a signal leaves notes.
  cases e with
  | out bytes =>
    refine ⟨m, [], rfl, rfl, rfl, rfl, ?_⟩
    rw [← write_ofText hlimit]
    rfl
  | err bytes =>
    refine ⟨m, [], rfl, rfl, rfl, rfl, ?_⟩
    rw [← write_ofText hlimit]
    rfl
  | pause span =>
    refine ⟨{ m with now := m.now + span }, [], rfl, rfl, rfl, rfl, ?_⟩
    have hwait : m.afterWait span = (false, { m with now := m.now + span }) := by
      rw [Moment.afterWait, show m.cutTime? span = none from hcut]
    rw [hquiet _ rfl, streamFrom, collect, Activity.run, hwait]
    rfl
  | signal =>
    refine ⟨m.afterCancel, [(m.now, .log .info cancellationMessage), (m.now, .canceled)], rfl,
        rfl, rfl,
      rfl, ?_⟩
    rw [hquiet _ rfl]
    rfl

theorem killsAmong_append (ns ms : List TimedNote) :
    killsAmong (ns ++ ms) = killsAmong ns ++ killsAmong ms := List.filterMap_append ..

theorem outputOf_cons (e : ProcessEvent) (rest : List ProcessEvent) :
    outputOf (e :: rest) = e.bytes ++ outputOf rest := List.flatMap_cons ..

theorem durationOf_cons (e : ProcessEvent) (rest : List ProcessEvent) :
    durationOf (e :: rest) = e.span + durationOf rest := rfl

/-- **A process that is not interrupted** is streamed to its end. -/
theorem run_streamFrom (hlimit : 0 ≤ limit) (text : List CodePoint) (s : State)
    (events : List ProcessEvent)
    (hcut : ∀ t, m.interruptAt = some t → m.now + durationOf events ≤ t) :
    ∃ m' notes, killsAmong notes = [] ∧
      (collect (ofText limit text) (streamFrom killsGroups exitCode s events)).run m =
        ⟨.done (ofText limit (text ++
            shown ((Text.Utf8.run s (outputOf events)).2 ++
                flush (Text.Utf8.run s (outputOf events)).1)),
          .done exitCode), m', notes⟩ := by
  induction events generalizing m text s with
  | nil =>
    refine ⟨m, [], rfl, ?_⟩
    rw [← write_ofText hlimit]
    rfl
  | cons e rest ih =>
    have huncut : m.cutTime? e.span = none := by
      refine Moment.cutTime?_eq_none fun t ht => ?_
      have h := hcut t ht
      rw [durationOf_cons] at h
      omega
    obtain ⟨m₁, notes, hnow, hinterrupt, -, hquiet, hrun⟩ :=
      run_event killsGroups exitCode hlimit text s e rest huncut
    obtain ⟨m₂, notes', hquiet', hrest⟩ :=
        ih (m := m₁) (text ++ shown (Text.Utf8.run s e.bytes).2)
      (Text.Utf8.run s e.bytes).1 (fun t ht => by
        have h := hcut t (hinterrupt ▸ ht)
        rw [durationOf_cons] at h
        omega)
    refine ⟨m₂, notes ++ notes', ?_, ?_⟩
    · rw [killsAmong_append, hquiet, hquiet', List.append_nil]
    · rw [hrun, hrest, outputOf_cons, Text.Utf8.run_append]
      simp only [shown_append, List.append_assoc]

/-- **A process that is interrupted** is killed, and streamed until then. -/
theorem run_streamFrom_interrupted (hlimit : 0 ≤ limit) (text : List CodePoint) (s : State)
    (events : List ProcessEvent) {t : Nat} (hcut : m.wasCut = false)
    (hat : m.interruptAt = some t)
    (hnow : m.now ≤ t) (hsoon : t < m.now + durationOf events) :
    ∃ m' notes, killsAmong notes = [killsGroups] ∧
      (collect (ofText limit text) (streamFrom killsGroups exitCode s events)).run m =
        ⟨.done (ofText limit (text ++
            shown (Text.Utf8.run s (deliveredUntil (t - m.now) events)).2), .interrupted),
              m', notes⟩ := by
  induction events generalizing m text s with
  | nil => exact absurd hnow (Nat.not_le_of_lt hsoon)
  | cons e rest ih =>
    rw [durationOf_cons] at hsoon
    by_cases htime : t - m.now < e.span
    · cases e with
      | pause span =>
        refine ⟨{ m with now := t, wasCut := true }, [(t, .killed killsGroups)], rfl, ?_⟩
        have hwait : m.afterWait span = (true, { m with now := t, wasCut := true }) :=
          Moment.afterWait_eq_cut hcut hat hnow
            (by simp only [ProcessEvent.span] at htime; omega)
        rw [deliveredUntil, if_pos htime, streamFrom, collect, Activity.run, hwait]
        simp [shown_nil, Text.Utf8.run, collect, Activity.run, Activity.yield, Activity.done,
            NoteKind.toNote,
          Deed.toNote, StepNote.toNote]
      | out bytes => exact absurd htime (Nat.not_lt_zero _)
      | err bytes => exact absurd htime (Nat.not_lt_zero _)
      | signal => exact absurd htime (Nat.not_lt_zero _)
    · have huncut : m.cutTime? e.span = none := by
        refine Moment.cutTime?_eq_none fun t' ht' => ?_
        obtain rfl : t = t' := Option.some.inj (hat.symm.trans ht')
        omega
      obtain ⟨m₁, notes, hnow₁, hinterrupt, hcut₁, hquiet, hrun⟩ :=
        run_event killsGroups exitCode hlimit text s e rest huncut
      obtain ⟨m₂, notes', hkills, hrest⟩ :=
          ih (m := m₁) (text ++ shown (Text.Utf8.run s e.bytes).2)
        (Text.Utf8.run s e.bytes).1 (hcut₁.trans hcut) (hinterrupt.trans hat) (by omega)
          (by omega)
      refine ⟨m₂, notes ++ notes', ?_, ?_⟩
      · rw [killsAmong_append, hquiet, hkills, List.nil_append]
      · rw [hrun, hrest, deliveredUntil, if_neg htime, hnow₁, Nat.sub_sub, Text.Utf8.run_append]
        simp only [shown_append, List.append_assoc]

end ProcessPlay

namespace Host

open Activity OutputBuffer Text.Utf8

/-- A process is spawned, and then it is streamed. -/
theorem run_collect_stream (h : Host) (c : Invocation) (m : Moment) (b : OutputBuffer)
    {play : ProcessPlay}
    (hspawn : h.spawn (m.processes + 1) c = .ok play) :
    (collect b (h.stream c)).run m =
      let o :=
          (collect b (ProcessPlay.streamFrom h.killsGroups play.exitCode .start play.events)).run
        { m with processes := m.processes + 1 }
      { o with notes := (m.now, .spawned c.argv) :: o.notes } := by
  rw [stream, launch]
  simp only [Bind.bind, Activity.bind, Activity.next, Activity.tell, Activity.done,
      Activity.andThen, collect,
    Activity.run, Moment.afterDraw, hspawn]
  rfl

/-- **The output of a process is kept as if it had been decoded and cut at once.** Unless the
process is interrupted while its output is awaited, the buffer ends with the end of the text of
all its bytes, its exit code is the result, and it is not killed. If it is interrupted, the
buffer ends with the end of the text of the bytes until then, and it is killed once. -/
theorem bounded_output (h : Host) (c : Invocation) (m : Moment) {play : ProcessPlay}
    {limit : Int}
    (hlimit : 0 ≤ limit) (hspawn : h.spawn (m.processes + 1) c = .ok play) (hcut : m.wasCut =
        false) :
    let o := (collect (.empty limit) (h.stream c)).run m
    ((∀ t, m.interruptAt = some t → m.now + play.duration ≤ t) →
      ∃ text, (∀ cs, Decoding play.output cs ↔ cs = text) ∧
        o.ending = .done (.ofText limit (text.map .char), .done play.exitCode) ∧
        killsAmong o.notes = []) ∧
    ∀ t, m.interruptAt = some t → m.now ≤ t → t < m.now + play.duration →
      ∃ text, (∀ cs, DecodingSoFar (play.deliveredWithin (t - m.now)) cs ↔ cs = text) ∧
        o.ending = .done (.ofText limit (text.map .char), .interrupted) ∧
        killsAmong o.notes = [h.killsGroups] := by
  intro o
  have ho : o = _ := run_collect_stream h c m (.empty limit) hspawn
  rw [empty_eq_ofText hlimit] at ho
  constructor
  · intro huncut
    obtain ⟨m', notes, hkills, hrun⟩ := ProcessPlay.run_streamFrom h.killsGroups play.exitCode
      (m := { m with processes := m.processes + 1 }) hlimit [] .start play.events huncut
    refine ⟨decode play.output, fun cs => decoding_iff.trans eq_comm, ?_, ?_⟩
    · rw [ho, hrun]
      rfl
    · rw [ho, hrun]
      exact hkills
  · intro t hat hnow hsoon
    obtain ⟨m', notes, hkills, hrun⟩ := ProcessPlay.run_streamFrom_interrupted h.killsGroups
      play.exitCode (m := { m with processes := m.processes + 1 }) hlimit [] .start play.events
        hcut hat hnow
      hsoon
    refine ⟨_, fun cs => decodingSoFar_iff.trans eq_comm, ?_, ?_⟩
    · rw [ho, hrun]
      rfl
    · rw [ho, hrun]
      exact hkills

/-- Chunks that cut characters apart, and an unfinished character at the end. -/
def choppyPlay : ProcessPlay where
  events := [.out [0xE2], .pause 5, .err [0x82, 0xAC, 0x41], .pause 5, .out [0xF0, 0x9F]]
  exitCode := 3

/-- A host with just this process. -/
def choppyHost : Host := ⟨fun _ _ => .ok choppyPlay, true⟩

/-- Once until the end, and once until an interruption. -/
theorem bounded_output_choppy :
    let c : Invocation := ⟨["sh"], none⟩
    let o (at? : Option Nat) :=
      (collect (.empty 2) (choppyHost.stream c)).run { Moment.start with interruptAt := at? }
    (∃ text, Decoding choppyPlay.output text ∧ text = ['€', 'A', '\uFFFD'] ∧
      (o none).ending = .done (⟨2, [.char 'A', .char '\uFFFD'], true⟩, .done 3) ∧
      killsAmong (o none).notes = []) ∧
    ∃ text, DecodingSoFar [0xE2, 0x82, 0xAC, 0x41] text ∧ text = ['€', 'A'] ∧
      (o (some 7)).ending = .done (⟨2, [.char '€', .char 'A'], false⟩, .interrupted) ∧
      killsAmong (o (some 7)).notes = [true] := by
  intro c o
  have hlimit : (0 : Int) ≤ 2 := by decide
  have hspawn : choppyHost.spawn 1 c = .ok choppyPlay := rfl
  obtain ⟨text, htext, hending, hkills⟩ :=
    (bounded_output choppyHost c Moment.start hlimit hspawn rfl).1 (fun t ht => by cases ht)
  obtain ⟨text', htext', hending', hkills'⟩ :=
    (bounded_output choppyHost c { Moment.start with interruptAt := some 7 } hlimit hspawn rfl).2
        7 rfl
      (by decide) (by decide)
  have hdecoded : ['€', 'A', '\uFFFD'] = text := (htext _).1 (decoding_iff.2 (by decide +kernel))
  have hdecoded' : ['€', 'A'] = text' := (htext' _).1 (decodingSoFar_iff.2 (by decide +kernel))
  subst hdecoded hdecoded'
  exact ⟨⟨_, (htext _).2 rfl, rfl, hending, hkills⟩, _, (htext' _).2 rfl, rfl, hending', hkills'⟩

end Host

end Conveyor
