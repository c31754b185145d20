import Conveyor.Proofs.Schedule.Alike
import Conveyor.Proofs.Schedule.Track

/-!
# Tracks at another time

A track beside a second one of the same job, which was taken at another time. As long as nothing
happens on them the clock of the second may stand still.

- `Track.Alike d`: the same track, `d` nanoseconds later; `Track.Alike.turn`, `Track.Alike.tick`.
- `Track.wake`: when the next round of a track comes, if there is no other.
- `Track.Trails`: the second track is behind in time, but nothing happens on it until then.
- `Track.Trails.round`: **a round of the first track is a round of the second, or passes it by**.
-/

namespace Conveyor

/-! ## Timers at another time -/

namespace Due

/-- A time, some nanoseconds later. -/
def shift (d : Nat) : Due → Due
  | time t => time (t + d)
  | undefined => undefined

theorem before_shift (d : Nat) (a b : Due) : (a.shift d).before (b.shift d) = a.before b := by
  cases a with
  | undefined => rfl
  | time t =>
    cases b with
    | undefined => rfl
    | time u => simp [shift]

theorem hasCome_shift (d now : Nat) (a : Due) :
    (a.shift d).hasCome (now + d) = a.hasCome now := by
  cases a with
  | undefined => rfl
  | time t => simp [shift]

end Due

theorem Span.due_add (span : Span) (now d : Nat) :
    span.due (now + d) = (span.due now).map (Due.shift d) := by
  cases span with
  | finite n =>
    show some (Due.time _) = some (Due.time _)
    congr 2
    omega
  | endless => rfl
  | undefined => rfl

namespace Chime

/-- A timer, some nanoseconds later. -/
def shift (d : Nat) (c : Chime) : Chime := ⟨c.due.shift d, c.bell⟩

theorem insert_shift (d : Nat) (c : Chime) (cs : List Chime) :
    insert (c.shift d) (cs.map (shift d)) = (insert c cs).map (shift d) := by
  simp [insert, shift, List.filter_map, Function.comp_def, Due.before_shift]

theorem obey_shift (d now : Nat) (cs : List Chime) (o : Order) :
    obey (now + d) (cs.map (shift d)) o = (obey now cs o).map (shift d) := by
  cases o with
  | cue c => rfl
  | worker => rfl
  | set span b =>
    unfold obey
    dsimp only
    rw [Span.due_add]
    cases span.due now with
    | none => rfl
    | some due => exact insert_shift d ⟨due, b⟩ cs
  | drop b =>
    show (cs.map (shift d)).filter _ = (cs.filter _).map (shift d)
    rw [List.filter_map]
    rfl

theorem obey_foldl_shift (d now : Nat) (os : List Order) (cs : List Chime) :
    os.foldl (obey (now + d)) (cs.map (shift d)) = (os.foldl (obey now) cs).map (shift d) := by
  induction os generalizing cs with
  | nil => rfl
  | cons o rest ih => rw [List.foldl_cons, List.foldl_cons, obey_shift, ih]

end Chime

/-! ## Tracks that are alike -/

namespace Track

variable {e : Engine} {d time : Nat} {k l : Track}

/-- The same track, `d` nanoseconds later. -/
structure Alike (d : Nat) (k l : Track) : Prop where
  lane : k.lane.Alike d l.lane
  chimes : k.chimes = l.chimes.map (Chime.shift d)

theorem Alike.pop (h : k.Alike d l) (rest : List Item) : (k.pop rest).Alike d (l.pop rest) :=
  ⟨{ h.lane with ready := rfl }, h.chimes⟩

/-- **A turn on a track does the same at another time**, unless it cancels the run. -/
theorem Alike.turn (he : e.Steady) (h : k.Alike d l) (i : Item)
    (hrun : (k.turn e i).lane.around.canceled = false) : (k.turn e i).Alike d (l.turn e i) := by
  refine ⟨h.lane.turn he i hrun, ?_⟩
  show (k.lane.deskAfter e i).orders.foldl _ _ = _
  rw [h.chimes, h.lane.around.now, Chime.obey_foldl_shift, ← (h.lane.deskAfter he i hrun).orders]
  rfl

/-- The next round is the same at another time. -/
theorem Alike.tick (h : k.Alike d l) (time : Nat) :
    (k.tick (time + d)).Alike d (l.tick time) := by
  have hbells : ((k.chimes.filter fun c => c.due.hasCome (time + d)).map Chime.bell) =
      (l.chimes.filter fun c => c.due.hasCome time).map Chime.bell := by
    rw [h.chimes]
    simp [Chime.shift, List.filter_map, Function.comp_def, Due.hasCome_shift]
  refine ⟨?_, ?_⟩
  · show (k.lane.tick (time + d) _).Alike d _
    rw [hbells]
    exact h.lane.tick time _
  · show k.chimes.filter _ = (l.chimes.filter _).map _
    rw [h.chimes]
    simp [Chime.shift, List.filter_map, Function.comp_def, Due.hasCome_shift]

/-! ## Tracks that trail behind -/

/-- The track with its clock set. -/
def setClock (time : Nat) (k : Track) : Track :=
  { k with lane := { k.lane with around := { k.lane.around with now := time } } }

/-- When the next round of a track comes if it is the only one: at once if somebody was called,
and else when the first of its timers goes off. -/
def wake (k : Track) : Nat :=
  if k.lane.later = [] then
    match k.chimes with
    | ⟨.time u, _⟩ :: _ => max k.lane.around.now u.toNat
    | _ => k.lane.around.now
  else k.lane.around.now

/-- Nothing happens on a track up to a time. -/
def Still (time : Nat) (k : Track) : Prop :=
  k.lane.ready = [] ∧ k.lane.later = [] ∧ ∀ c ∈ k.chimes, c.due.hasCome time = false

/-- The first track is the second, `d` nanoseconds later, with the clock of the second at `time`;
until then nothing happens on the second. -/
structure Trails (d time : Nat) (k l : Track) : Prop where
  alike : k.Alike d (l.setClock time)
  late : l.lane.around.now ≤ time
  still : l.lane.around.now < time → l.Still time

theorem Alike.trails (h : k.Alike d l) : k.Trails d l.lane.around.now l :=
  ⟨h, Nat.le_refl _, fun hlt => absurd hlt (Nat.lt_irrefl _)⟩

/-- The clocks agree when something is to happen. -/
theorem Trails.alike_of_busy (h : k.Trails d time l) (hbusy : ¬l.Still time) :
    l.lane.around.now = time ∧ k.Alike d l := by
  have hnow : l.lane.around.now = time := by
    rcases Nat.lt_or_eq_of_le h.late with hlt | heq
    · exact absurd (h.still hlt) hbusy
    · exact heq
  refine ⟨hnow, ?_⟩
  have hself : l.setClock time = l := by
    rw [← hnow]
    rfl
  exact hself ▸ h.alike

/-- Who else has a turn does not matter, unless it cancels the run. -/
theorem Trails.other (h : k.Trails d time l) {s : Surroundings} (hnow : s.now =
    k.lane.around.now)
    (hrun : s.canceled = false) : Trails d time { k with lane := k.lane.moveTo s } l := by
  refine ⟨⟨?_, h.alike.chimes⟩, h.late, h.still⟩
  show (k.lane.moveTo s).Alike d _
  rw [Lane.moveTo_eq, hrun]
  have hlane := h.alike.lane
  have haround : s.Alike d (l.setClock time).lane.around :=
    ⟨hnow.trans hlane.around.now, hrun, hlane.around.running'⟩
  simpa [Lane.heard, Lane.hearing, Lane.Hears] using { hlane with around := haround }

/-- The first timer is the next to go off. -/
structure Sorted (k : Track) : Prop where
  defined : ∀ c ∈ k.chimes, c.due ≠ .undefined
  sorted : k.chimes.Pairwise fun a b => b.due.before a.due = false

/-- A track that has a timer that goes off wakes up with the first of its timers. -/
theorem Sorted.wake_eq (h : l.Sorted) (hlater : l.lane.later = []) {c : Chime}
    (hc : c ∈ l.chimes)
    (hcome : c.due.hasCome time = true) :
    ∃ b ∈ l.chimes, ∃ u, b.due = .time u ∧ u ≤ time ∧
    l.wake = max l.lane.around.now u.toNat := by
  obtain ⟨lane, chimes⟩ := l
  obtain ⟨defined, sorted⟩ := h
  cases chimes with
  | nil => cases hc
  | cons first rest =>
    obtain ⟨due, bell⟩ := first
    obtain ⟨u, rfl⟩ := Due.eq_time (defined _ List.mem_cons_self)
    obtain ⟨t, ht⟩ := Due.eq_time (defined c hc)
    refine ⟨_, List.mem_cons_self, u, rfl, ?_, if_pos hlater⟩
    rw [ht, Due.hasCome_time, decide_eq_true_eq] at hcome
    rcases List.mem_cons.1 hc with rfl | hmem
    · cases ht
      exact hcome
    · have hle := (List.pairwise_cons.1 sorted).1 c hmem
      rw [ht, Due.before_time, decide_eq_false_iff_not] at hle
      omega

/-- A round that passes a track by. -/
theorem Still.tick_eq (h : k.Still time) : k.tick time = k.setClock time := by
  obtain ⟨hready, hlater, hcome⟩ := h
  have hbells : (k.chimes.filter fun c => c.due.hasCome time) = [] :=
    List.filter_eq_nil_iff.2 fun c hc => by simp [hcome c hc]
  have hkept : (k.chimes.filter fun c => !c.due.hasCome time) = k.chimes :=
    List.filter_eq_self.2 fun c hc => by simp [hcome c hc]
  simp [tick, setClock, Lane.tick, hbells, hkept, hlater, hready]

theorem still_setClock (time' : Nat) : (k.setClock time').Still time ↔ k.Still time := Iff.rfl

/-- **A round of the first track is a round of the second, or passes it by.** -/
theorem Trails.round (h : k.Trails d time l) (hsorted : l.Sorted) {time' : Nat}
    (hready : k.lane.ready = []) (hnow : k.lane.around.now ≤ time')
    (hlater : k.lane.later ≠ [] → time' = k.lane.around.now)
    (hdue : ∀ c ∈ k.chimes, ∀ u, c.due = .time u →
        (time' : Int) ≤ max (k.lane.around.now : Int) u) :
    (∃ t, (k.tick time').Trails d t l) ∨
    l.lane.ready = [] ∧ (l.lane.later ≠ [] ∨ l.chimes ≠ []) ∧
      (k.tick time').Trails d l.wake (l.tick l.wake) := by
  have hclock : k.lane.around.now = time + d := h.alike.lane.around.now
  obtain ⟨t, rfl⟩ : ∃ t, time' = t + d := ⟨time' - d, by omega⟩
  have htick := h.alike.tick t
  have hready' : l.lane.ready = [] := h.alike.lane.ready.trans hready
  by_cases hstill : l.Still t
  · -- Nothing happens on the second track: its clock stands still.
    refine .inl ⟨t, ?_, ?_, fun _ => hstill⟩
    · rw [((still_setClock time).2 hstill).tick_eq] at htick
      exact htick
    · have := h.late
      omega
  · refine .inr ⟨hready', ?_, ?_⟩
    · by_contra hnone
      obtain ⟨hempty, hnil⟩ := not_or.1 hnone
      refine hstill ⟨hready', Decidable.of_not_not hempty, fun c hc => ?_⟩
      rw [Decidable.of_not_not hnil] at hc
      cases hc
    · have hwake : l.wake = t := by
        by_cases hempty : l.lane.later = []
        · -- A timer goes off, and with it the first of all.
          obtain ⟨c, hc, hcome⟩ : ∃ c ∈ l.chimes, c.due.hasCome t = true := by
            by_contra hnone
            refine hstill ⟨hready', hempty, fun c hc => ?_⟩
            by_contra hcome
            exact hnone ⟨c, hc, by simpa using hcome⟩
          obtain ⟨b, hb, u, hu, hut, hwake⟩ := hsorted.wake_eq hempty hc hcome
          have hmem : b.shift d ∈ k.chimes := by
            rw [h.alike.chimes]
            exact List.mem_map_of_mem hb
          have hle := hdue _ hmem (u + d) (by rw [Chime.shift, hu]; rfl)
          have hlate := h.late
          rcases Nat.lt_or_eq_of_le h.late with hlt | heq
          · have hnot := (h.still hlt).2.2 b hb
            rw [hu, Due.hasCome_time, decide_eq_false_iff_not] at hnot
            omega
          · omega
        · obtain ⟨heq, halike⟩ := h.alike_of_busy fun hs => hempty hs.2.1
          have htime := hlater (by rwa [← halike.lane.later])
          rw [wake, if_neg hempty]
          omega
      rw [hwake]
      exact Alike.trails (l := l.tick t) htick

end Track

end Conveyor
