import Conveyor.Proofs.Schedule.Custody
import Conveyor.Proofs.Schedule.Track

/-!
# What a turn leaves of a track

After a turn, the turns to come and the timers of a flight are those of before, but for the turn
itself, what was taken back and what was asked for. Most turns ask for nothing that could call
the body.

- `Track.Turned`: what a turn leaves of a track; `Track.turned` says that every turn does so.
- `Order.isEarly`: what is asked for unless a release begins or ends, or a body waits for a time.
- `Desk.Bystands`, `Desk.bystands_cueTurn`: turns that do not concern the body.
- `Lane.bodyCall_tend`, `Lane.isEarly_tend`: what a worker does to the body.
- `Item.callsBody`: the turns that can call a body; `Track.Turned.mem_items`.
-/

namespace Conveyor

/-! ## Timers after a turn -/

namespace Chime

/-- A timer that is set after a turn was set before and not taken back, or was asked for. -/
theorem of_mem_obey_foldl {c : Chime} {now : Nat} {os : List Order} {cs : List Chime}
    (h : c ∈ os.foldl (obey now) cs) :
    c ∈ cs ∧ .drop c.bell ∉ os ∨ ∃ span, .set span c.bell ∈ os ∧ span.due now = some c.due := by
  induction os generalizing cs with
  | nil => exact .inl ⟨h, by simp⟩
  | cons o os ih =>
    rcases ih h with ⟨hmem, hdrop⟩ | ⟨span, hset, hdue⟩
    · cases o with
      | cue c' => exact .inl ⟨hmem, by simpa using hdrop⟩
      | worker => exact .inl ⟨hmem, by simpa using hdrop⟩
      | set span b =>
        rw [obey] at hmem
        split at hmem
        · rename_i due hdue
          rcases mem_insert.1 hmem with rfl | hmem
          · exact .inr ⟨span, List.mem_cons_self, hdue⟩
          · exact .inl ⟨hmem, by simpa using hdrop⟩
        · exact .inl ⟨hmem, by simpa using hdrop⟩
      | drop b =>
        obtain ⟨hold, hne⟩ := List.mem_filter.1 hmem
        exact .inl ⟨hold, by simpa using ⟨of_decide_eq_true hne, hdrop⟩⟩
    · exact .inr ⟨span, List.mem_cons_of_mem o hset, hdue⟩

/-- How many timers are set for a bell. -/
def countFor (b : Bell) (cs : List Chime) : Nat := cs.countP fun c => c.bell = b

theorem countFor_insert (b : Bell) (c : Chime) (cs : List Chime) :
    countFor b (insert c cs) = countFor b cs + if c.bell = b then 1 else 0 := by
  have hsplit := List.countP_eq_countP_filter_add cs (fun a : Chime => a.bell = b)
    (fun a => !c.due.before a.due)
  unfold countFor insert
  rw [List.countP_append, List.countP_cons, hsplit]
  simp only [Bool.not_not, decide_eq_true_eq]
  omega

/-- There are no more timers for a bell than before, but for those that were asked for. -/
theorem countFor_obey_foldl {b : Bell} (now : Nat) {os : List Order}
    (h : ∀ span, .set span b ∉ os)
    (cs : List Chime) : countFor b (os.foldl (obey now) cs) ≤ countFor b cs := by
  induction os generalizing cs with
  | nil => exact Nat.le_refl _
  | cons o os ih =>
    refine Nat.le_trans (ih (fun span hs => h span (List.mem_cons_of_mem o hs)) _) ?_
    cases o with
    | cue c => exact Nat.le_refl _
    | worker => exact Nat.le_refl _
    | set span b' =>
      have hne : b' ≠ b := by
        rintro rfl
        exact h span List.mem_cons_self
      rw [obey]
      split
      · exact Nat.le_of_eq (by rw [countFor_insert, if_neg hne, Nat.add_zero])
      · exact Nat.le_refl _
    | drop b' => exact List.Sublist.countP_le List.filter_sublist

/-- The timers that go off, and those that do not. -/
theorem countFor_filter (b : Bell) (p : Chime → Bool) (cs : List Chime) :
    countFor b (cs.filter fun c => !p c) + countFor b (cs.filter p) = countFor b cs := by
  have hsplit := List.countP_eq_countP_filter_add cs (fun c : Chime => c.bell = b) p
  unfold countFor
  rw [hsplit, Nat.add_comm]

/-- The turns of bells that go off. -/
theorem count_bells (b : Bell) (cs : List Chime) :
    ((cs.map Chime.bell).map fun b' => Item.cue (.bell b')).count (.cue (.bell b)) =
    countFor b cs := by
  rw [List.count, List.countP_map, List.countP_map]
  refine List.countP_congr fun c _ => ?_
  simp

theorem countFor_eq_zero {b : Bell} {cs : List Chime} :
    countFor b cs = 0 ↔ ∀ c ∈ cs, c.bell ≠ b := by
  unfold countFor
  rw [List.countP_eq_zero]
  simp

end Chime

/-! ## What a turn leaves of a track -/

theorem Order.item?_eq_cue {o : Order} {c : Cue} : o.item? = some (.cue c) ↔ o = .cue c := by
  cases o <;> simp [item?]

theorem Lane.mem_hearing {j : Item} {c c' : Bool} {x : Flight} (h : j ∈ hearing c c' x) :
    j = .cue .watch := by
  unfold hearing at h
  split at h
  · exact List.mem_singleton.1 h
  · cases h

/-- A flight that is put back as it was taken. -/
theorem Lane.put_desk (v : Lane) : v.put v.desk = v := by
  show Lane.moveTo v.around { v with seen := v.seen ++ [] } = v
  rw [List.append_nil]
  exact v.moveTo_self

namespace Track

variable {e : Engine} {k k' : Track} {i j : Item} {rest : List Item} {d : Desk}

/-- What a turn that leaves a desk makes of a track, whose other turns in the round are
`rest`. -/
structure Turned (k : Track) (rest : List Item) (d : Desk) (k' : Track) : Prop where
  flight : ∃ c c', k'.lane.flight = Lane.heard c c' d.flight
  now : k'.lane.around.now = k.lane.around.now
  notes : k'.lane.notes = k.lane.notes ++ d.notes
  chimes : k'.chimes = d.orders.foldl (Chime.obey k.lane.around.now) k.chimes
  ready : k'.lane.ready.Sublist rest
  later : ∀ c, .cue c ∈ k'.lane.later → .cue c ∈ k.lane.later ∨ c = .watch ∨ .cue c ∈ d.orders
  /-- No turn of a party gets lost. -/
  kept : ∀ c, .cue c ∈ rest ++ k.lane.later → .cue c ∈ k'.lane.items
  added : ∀ c, .cue c ∈ d.orders → .cue c ∈ k'.lane.items

/-- A desk that is put back. -/
theorem turned_put {v : Lane} (hready : v.ready = rest) (hlater : v.later = k.lane.later)
    (hnow : d.around.now = k.lane.around.now) (hnotes : v.notes = k.lane.notes) :
    k.Turned rest d ⟨v.put d, d.orders.foldl (Chime.obey k.lane.around.now) k.chimes⟩ := by
  have hitems : v.items = rest ++ k.lane.later := by rw [Lane.items, hready, hlater]
  refine ⟨⟨_, _, congrArg Lane.flight (Lane.put_eq d v)⟩, ?_, ?_, rfl, ?_, ?_, ?_, ?_⟩
  · rw [Lane.put_eq]
    exact hnow
  · rw [Lane.notes_put, hnotes]
  · have hput : (v.put d).ready = rest := (congrArg Lane.ready (Lane.put_eq d v)).trans hready
    exact hput ▸ List.Sublist.refl _
  · intro c hc
    rw [Lane.put_eq] at hc
    rcases List.mem_append.1 hc with hc | hc
    · rcases List.mem_append.1 hc with hc | hc
      · exact .inl (hlater ▸ hc)
      · cases Lane.mem_hearing hc
        exact .inr (.inl rfl)
    · obtain ⟨o, ho, hitem⟩ := List.mem_filterMap.1 hc
      exact .inr (.inr (Order.item?_eq_cue.1 hitem ▸ ho))
  · intro c hc
    rw [Lane.items_put, hitems]
    exact List.mem_append_left _ hc
  · intro c hc
    rw [Lane.items_put]
    exact List.mem_append_right _ (List.mem_append_right _ (List.mem_filterMap.2 ⟨_, hc, rfl⟩))

/-- The worker leaves the flight after its turn. -/
theorem Turned.retire {v : Lane} {cs : List Chime} (h : k.Turned rest d ⟨v, cs⟩) :
    k.Turned rest d ⟨v.retire, cs⟩ := by
  refine ⟨h.flight, h.now, h.notes, h.chimes, List.filter_sublist.trans h.ready, ?_, ?_, ?_⟩
  · exact fun c hc => h.later c (List.mem_filter.1 hc).1
  all_goals
    intro c hc
    show Item.cue c ∈ v.ready.filter _ ++ v.later.filter _
    rw [← List.filter_append]
    refine List.mem_filter.2 ⟨?_, by simp⟩
  · exact h.kept c hc
  · exact h.added c hc

/-- A turn of somebody else leaves a track as one that does nothing. -/
theorem turned_other {s : Surroundings} (hnow : s.now = k.lane.around.now) :
    k.Turned k.lane.ready k.lane.desk { k with lane := k.lane.moveTo s } := by
  rw [Lane.moveTo_eq]
  refine ⟨⟨_, _, rfl⟩, hnow, (List.append_nil _).symm, rfl, List.Sublist.refl _, ?_, ?_, ?_⟩
  · intro c hc
    refine (List.mem_append.1 hc).imp id fun hc => ?_
    cases Lane.mem_hearing hc
    exact .inl rfl
  · intro c hc
    rw [Lane.items, ← List.append_assoc]
    exact List.mem_append_left _ hc
  · exact fun c hc => absurd hc List.not_mem_nil

/-- So does the interruption of the worker. -/
theorem turned_cut (k : Track) :
    k.Turned k.lane.ready k.lane.desk { k with lane := k.lane.cut } := by
  have hself : ∀ v : Lane, v.flight = k.lane.flight → v.around = k.lane.around →
      v.notes = k.lane.notes →
      v.ready = k.lane.ready → (v.later = k.lane.later ∨ v.later = k.lane.later ++ [.worker]) →
      k.Turned k.lane.ready k.lane.desk { k with lane := v } := by
    intro v hflight haround hnotes hready hlater
    have hheard : v.flight = Lane.heard true true k.lane.desk.flight := by
      rw [hflight]
      rfl
    refine ⟨⟨_, _, hheard⟩, congrArg Surroundings.now haround,
        hnotes.trans (List.append_nil _).symm, rfl,
      hready ▸ List.Sublist.refl _, ?_, ?_, fun c hc => absurd hc List.not_mem_nil⟩
    · intro c hc
      rcases hlater with hlater | hlater
      · exact .inl (hlater ▸ hc)
      · refine .inl ?_
        have hc' : Item.cue c ∈ v.later := hc
        rw [hlater] at hc'
        simpa using hc'
    · intro c hc
      show _ ∈ v.ready ++ v.later
      rw [hready]
      rcases hlater with hlater | hlater
      · exact hlater ▸ hc
      · rw [hlater, ← List.append_assoc]
        exact List.mem_append_left _ hc
  by_cases hp : k.lane.post = .away
  · rw [Lane.cut_of_away hp]
    exact hself k.lane rfl rfl rfl rfl (.inl rfl)
  by_cases hc : k.lane.call = .idle
  · rw [Lane.cut_of_idle hp hc]
    exact hself _ rfl rfl rfl rfl (.inr rfl)
  · rw [Lane.cut_of_called hp hc]
    exact hself _ rfl rfl rfl rfl (.inl rfl)

/-- **What a turn leaves of a track.** -/
theorem turned (e : Engine) (k : Track) (rest : List Item) (i : Item) :
    k.Turned rest ((k.pop rest).lane.deskAfter e i) ((k.pop rest).turn e i) := by
  cases i with
  | cue c =>
    refine turned_put (v := (k.pop rest).lane) rfl rfl ?_ rfl
    by_cases hb : c = .body
    · subst hb
      exact (e.works_bodyTurn (d := (k.pop rest).lane.desk) rfl rfl).now
    by_cases hr : c = .release
    · subst hr
      exact (Desk.works_releaseTurn (e := e) (d := (k.pop rest).lane.desk) rfl rfl).now
    · exact congrArg Surroundings.now (Desk.aside_cueTurn e (k.pop rest).lane.desk hb hr).around
  | worker =>
    show k.Turned rest ((k.pop rest).lane.tend e).1
      ⟨(k.pop rest).lane.workerTurn e, ((k.pop rest).lane.tend e).1.orders.foldl _ k.chimes⟩
    by_cases hp : (k.pop rest).lane.post = .away
    · have hput := turned_put (k := k) (v := (k.pop rest).lane.idled)
        (d := (k.pop rest).lane.idled.desk) rfl rfl rfl rfl
      have htend : ((k.pop rest).lane.tend e).1 = (k.pop rest).lane.idled.desk := by
        unfold Lane.tend
        rw [hp]
      rw [Lane.put_desk] at hput
      rw [htend, Lane.workerTurn_away e hp]
      exact hput
    · have hput := turned_put (k := k) (v := (k.pop rest).lane.idled)
        (d := ((k.pop rest).lane.tend e).1) rfl rfl
        (congrArg Surroundings.now ((k.pop rest).lane.tends_tend e hp).around) rfl
      rw [Lane.workerTurn_eq e hp, Lane.after]
      split
      · exact hput
      · exact hput.retire

/-- The turns to come when the next round begins: those of before, and the timers that go off. -/
theorem items_tick (hr : k.lane.ready = []) (time : Nat) :
    (k.tick time).lane.items = k.lane.items ++
      ((k.chimes.filter fun c => c.due.hasCome time).map Chime.bell).map fun b =>
          .cue (.bell b) := by
  show (k.lane.later ++ _) ++ [] = (k.lane.ready ++ k.lane.later) ++ _
  rw [hr, List.nil_append, List.append_nil]

theorem mem_bells {time : Nat} (h : j ∈ ((k.chimes.filter fun c => c.due.hasCome time).map
    Chime.bell).map fun b => Item.cue (.bell b)) :
    ∃ c ∈ k.chimes, c.due.hasCome time = true ∧ j = .cue (.bell c.bell) := by
  obtain ⟨b, hb, rfl⟩ := List.mem_map.1 h
  obtain ⟨c, hc, rfl⟩ := List.mem_map.1 hb
  obtain ⟨hmem, hcome⟩ := List.mem_filter.1 hc
  exact ⟨c, hmem, hcome, rfl⟩

end Track

/-! ## What is asked for -/

/-- Is it something other than a timer for the body, the grace period of a release, or news that
disturbs a body waiting for its release? -/
def Order.isEarly : Order → Bool
  | .cue (.bell _) | .cue .releaseOver | .set _ .body | .set _ .grace => false
  | _ => true

/-- Is it a turn that neither body nor release has, and that does not call the body? -/
def Cue.isBystander : Cue → Bool
  | .watch | .bodyOver _ | .watchOver | .bell .release | .bell .timeout | .bell .patience => true
  | _ => false

namespace Desk

variable {d : Desk}

/-- A turn that leaves the calls of the body as they are. -/
structure Bystands (d d' : Desk) : Prop where
  bodyCall : d'.flight.bodyCall = d.flight.bodyCall
  releaseCall : d'.flight.releaseCall = d.flight.releaseCall ∨
    d'.flight.releaseCall = .called ∧ .cue .release ∈ d'.orders
  orders : ∀ o ∈ d'.orders, o = .worker ∨ o = .cue .watchOver ∨ o = .cue .release

theorem Bystands.isEarly {d' : Desk} (h : d.Bystands d') :
    ∀ o ∈ d'.orders, o.isEarly = true := by
  intro o ho
  rcases h.orders o ho with rfl | rfl | rfl <;> rfl

theorem bystands_callWorker (ho : d.orders = []) (vigil : Vigil) :
    d.Bystands (d.callWorker vigil) := by
  unfold callWorker
  split
  · exact ⟨rfl, .inl rfl, by simp [order, ho]⟩
  · exact ⟨rfl, .inl rfl, by simp [ho]⟩

theorem bystands_callRelease (ho : d.orders = []) : d.Bystands d.callRelease := by
  unfold callRelease
  split
  · exact ⟨rfl, .inr ⟨rfl, List.mem_append_right _ List.mem_cons_self⟩, by
      simp [push, order, edit, ho]⟩
  · exact ⟨rfl, .inl rfl, by simp [ho]⟩

theorem bystands_cueTurn (e : Engine) (ho : d.orders = []) {c : Cue}
    (hc : c.isBystander = true) :
    d.Bystands (e.cueTurn c d) := by
  have hcued := e.cued_cueTurn c d
  generalize e.cueTurn c d = d' at hcued
  cases hcued with
  | body => cases hc
  | release => cases hc
  | watches => exact ⟨rfl, .inl rfl, by simp [edit, ho]⟩
  | endsWatch => exact ⟨rfl, .inl rfl, by simp [endWatch, push, order, edit, ho]⟩
  | callsBody _ news => rcases news with rfl | rfl | rfl <;> cases hc
  | callsRelease => exact bystands_callRelease ho
  | callsWorker _ vigil => exact bystands_callWorker ho vigil
  | nothing => exact ⟨rfl, .inl rfl, by simp [ho]⟩

end Desk

theorem Order.isEarly_of_ofWorker {e : Engine} {o : Order} (h : o.ofWorker e = true) :
    o.isEarly = true := by
  cases o with
  | cue c => cases c <;> first | rfl | cases h
  | worker => rfl
  | set span b => cases b <;> first | rfl | cases h
  | drop b => rfl

/-- A worker leaves the calls of the body as they are, or interrupts it and takes its timer
back. -/
theorem Lane.bodyCall_tend (e : Engine) (v : Lane) :
    (v.tend e).1.flight.bodyCall = v.flight.bodyCall ∨
      v.post = .watching ∧ .drop .body ∈ (v.tend e).1.orders := by
  have hpreempt : ∀ (cause : Cause) (d : Desk),
      (e.preempt cause d).flight.bodyCall = d.flight.bodyCall ∨
        .drop .body ∈ (e.preempt cause d).orders := by
    intro cause d
    unfold Engine.preempt
    split
    · exact .inl rfl
    · right
      dsimp only
      rw [Desk.cutBody_eq]
      exact List.mem_append_left _ (List.mem_append_right _ List.mem_cons_self)
  unfold tend
  cases hpost : v.post with
  | away => exact .inl rfl
  | watching =>
    dsimp only
    unfold Engine.afterWatching
    dsimp only
    split
    · exact (hpreempt _ _).imp id fun hd => ⟨rfl, hd⟩
    · split
      · exact .inl rfl
      · split
        · exact (hpreempt _ _).imp id fun hd => ⟨rfl, hd⟩
        · exact (hpreempt _ _).imp id fun hd => ⟨rfl, hd⟩
      · exact (hpreempt _ _).imp id fun hd => ⟨rfl, hd⟩
      · split
        · exact (hpreempt _ _).imp id fun hd => ⟨rfl, hd⟩
        · exact (hpreempt _ _).imp id fun hd => ⟨rfl, hd⟩
  | preempting cause =>
    left
    dsimp only
    unfold Engine.afterPreempting
    dsimp only
    split
    · rfl
    · cases Engine.preemptionMessage v.idled.desk.flight.body with
      | none => cases cause.status? <;> rfl
      | some message => cases cause.status? <;> rfl

/-- A turn of a worker asks for nothing that disturbs the body. -/
theorem Lane.isEarly_tend (e : Engine) (v : Lane) : ∀ o ∈ (v.tend e).1.orders, o.isEarly =
    true := by
  by_cases hp : v.post = .away
  · unfold tend
    rw [hp]
    exact fun o ho => absurd ho List.not_mem_nil
  · exact fun o ho => Order.isEarly_of_ofWorker ((v.tends_tend e hp).orders o ho)

theorem Lane.release_tend (e : Engine) (v : Lane) :
    (v.tend e).1.flight.release = v.flight.release := by
  by_cases hp : v.post = .away
  · unfold tend
    rw [hp]
    rfl
  · exact (v.tends_tend e hp).release

/-! ## Turns that call a body -/

/-- Can the turn call a body? -/
def Item.callsBody : Item → Bool
  | .cue (.bell .body) | .cue (.bell .grace) | .cue .releaseOver => true
  | _ => false

/-- Whoever is neither body nor release, and does not call the body, is a bystander. -/
theorem Cue.isBystander_of {c : Cue} (hb : c ≠ .body) (hr : c ≠ .release)
    (hc : (Item.cue c).callsBody = false) : c.isBystander = true := by
  cases c with
  | body => exact absurd rfl hb
  | release => exact absurd rfl hr
  | releaseOver => cases hc
  | bell b =>
    cases b with
    | body => cases hc
    | grace => cases hc
    | _ => rfl
  | _ => rfl

namespace Track

variable {k k' : Track} {j : Item} {rest : List Item} {d : Desk}

/-- A timer that nobody asked for was set before, and is not taken back. -/
theorem Turned.mem_chimes (h : k.Turned rest d k') {c : Chime}
    (ho : ∀ span, .set span c.bell ∉ d.orders)
    (hc : c ∈ k'.chimes) : c ∈ k.chimes ∧ .drop c.bell ∉ d.orders := by
  rw [h.chimes] at hc
  exact (Chime.of_mem_obey_foldl hc).resolve_right fun hset => hset.elim fun span hs =>
    ho span hs.1

/-- What is asked for early sets no timer of the body, and none for a release. -/
theorem set_not_mem_of_early (ho : ∀ o ∈ d.orders, o.isEarly = true) {b : Bell}
    (hb : b = .body ∨ b = .grace) (span : Span) : .set span b ∉ d.orders := by
  intro hs
  rcases hb with rfl | rfl <;> cases ho _ hs

/-- What is asked for early calls no body. -/
theorem callsBody_of_early (ho : ∀ o ∈ d.orders, o.isEarly = true) :
    ∀ c, .cue c ∈ d.orders → (Item.cue c).callsBody = false := by
  intro c hc
  have hearly := ho _ hc
  cases c with
  | bell b => cases hearly
  | releaseOver => cases hearly
  | _ => rfl

theorem Turned.mem_later (h : k.Turned rest d k')
    (ho : ∀ c, .cue c ∈ d.orders → (Item.cue c).callsBody = false)
    (hc : j.callsBody = true) (hj : j ∈ k'.lane.later) : j ∈ k.lane.later := by
  cases j with
  | worker => cases hc
  | cue c =>
    rcases h.later c hj with hj | rfl | hmem
    · exact hj
    · cases hc
    · rw [ho c hmem] at hc
      cases hc

theorem Turned.mem_items (h : k.Turned rest d k') (hrest : rest.Sublist k.lane.ready)
    (ho : ∀ c, .cue c ∈ d.orders → (Item.cue c).callsBody = false)
    (hc : j.callsBody = true) (hj : j ∈ k'.lane.items) : j ∈ k.lane.items :=
  (List.mem_append.1 hj).elim
    (fun hj => List.mem_append_left _ (hrest.mem (h.ready.mem hj)))
    fun hj => List.mem_append_right _ (h.mem_later ho hc hj)

end Track

end Conveyor
