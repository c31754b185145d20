import Conveyor.Proofs.Schedule.Awaiting

/-!
# Moments of a schedule

A schedule is seen from outside as a list of sightings. Whatever was seen up to some point was
seen up to a moment of the run, and then in a move that was not yet over: in that move, only
flights that were there before are seen, because a job that is taken is the last that a move
shows.

- `Engine.Moves.unique`, `Engine.Leads.to_end`: a run goes one way only.
- `Floor.Unfolds`: what a move shows; `Floor.unfolds_moves` says that all moves are like this.
- `Floor.exists_moment`: **what was seen up to some point, as a moment of the run**.
- `Floor.seenOf_moves`: what a move adds to what was seen of a flight is seen at once.
- `Floor.Underway.lane_leads`: what all moves keep in a lane, a run keeps.
- `Floor.now_le_leads`, `Floor.canceled_leads`, `Floor.Stopped.leads`: the clock does not go
  back, and what is canceled or stopped stays so.
-/

namespace Conveyor

variable {σ : Type}

namespace Engine

variable {e : Engine} {fl m n n' : Floor σ}

/-- There is at most one next move. -/
theorem Moves.unique (h : e.Moves fl n) (h' : e.Moves fl n') : n' = n := by
  cases h with
  | turn ready other =>
    cases h' with
    | turn ready' other' =>
      rw [ready] at ready'
      cases ready'
      rfl
    | round ready' next =>
      rw [ready] at ready'
      cases ready'
  | round ready next =>
    cases h' with
    | turn ready' other' =>
      rw [ready] at ready'
      cases ready'
    | round ready' next' =>
      rw [next] at next'
      exact (Option.some.inj next').symm

/-- When the scheduler goes on, there is no next move. -/
theorem not_moves_of_scheduler {rest : List Turn} (hr : m.ready = .scheduler :: rest) :
    ¬e.Moves m n := by
  intro hm
  cases hm with
  | turn ready other =>
    rw [hr] at ready
    cases ready
    exact other rfl
  | round ready next =>
    rw [hr] at ready
    cases ready

/-- Every moment of a run leads to its end. -/
theorem Leads.to_end {rest : List Turn} (h : e.Leads fl m) (hr : m.ready = .scheduler :: rest)
    (hn : e.Leads fl n) : e.Leads n m := by
  induction hn with
  | refl => exact h
  | @tail n n' _ hm ih =>
    rcases ih.cases_head with rfl | ⟨k, hk, hkm⟩
    · exact absurd hm (not_moves_of_scheduler hr)
    · rw [hk.unique hm]
      exact hkm

end Engine

namespace Floor

/-- What is seen between two floors, in order: first something of flights that were there before,
and then possibly that a job is taken. -/
structure Unfolds (fl fl' : Floor σ) (ss : List Sighting) (last : Option Sighting) : Prop where
  sightings : fl'.sightings = fl.sightings ++ (ss ++ last.toList)
  known : ∀ s ∈ ss, ∀ f, s.flight = some f → f < fl.flights.length
  time : ∀ s ∈ ss ++ last.toList, s.time = fl.now

variable {e : Engine} {fl fl' m : Floor σ} {f w : Nat} {v : Lane}

/-- Nothing is to be seen. -/
theorem unfolds_nothing (h : fl'.seen = fl.seen) : fl.Unfolds fl' [] none := by
  refine ⟨?_, by simp, by simp⟩
  simp [sightings, h]

/-- When a worker looks for a job, the only thing that can be seen of a flight is that it is
taken. -/
theorem unfolds_sought (h : e.Sought w fl fl') : ∃ ss last, fl.Unfolds fl' ss last := by
  cases h with
  | @nothing gone ns passes seen flights around =>
    refine ⟨ns.map fun n => ⟨fl.now, none, n⟩, none, ?_, by simp, by simp⟩
    simp [sightings, seen]
  | @job i rest ns m passes running launched =>
    refine ⟨ns.map fun n => ⟨fl.now, none, n⟩,
      some ⟨fl.now, some fl.flights.length, .log .debug (Engine.pickUpMessage w i)⟩, ?_, by
        simp, ?_⟩
    · rw [launched, launch_eq]
      simp [sightings, cleared, see, now]
    · intro s hs
      rcases List.mem_append.1 hs with hs | hs
      · obtain ⟨n, -, rfl⟩ := List.mem_map.1 hs
        rfl
      · rw [List.mem_singleton.1 hs]

theorem unfolds_carries {jobId : Text} {sq : Sequel} (h : e.Carries w jobId fl sq fl') :
    ∃ ss last, fl.Unfolds fl' ss last := by
  cases h with
  | stay => exact ⟨[], none, unfolds_nothing rfl⟩
  | stop => exact ⟨[], none, unfolds_nothing rfl⟩
  | free seeks => exact unfolds_sought seeks.sought

/-- What was seen at a desk comes before how the worker goes on. -/
theorem Unfolds.after_put {d : Desk} {ss : List Sighting} {last : Option Sighting}
    (hlt : f < fl.flights.length) (hnow : d.around.now = fl.now)
    (h : (fl.put f d).Unfolds fl' ss last) : fl.Unfolds fl' (fl.told f d.notes ++ ss) last := by
  have hput := putBack f d fl
  have hnow' : (fl.put f d).now = fl.now := by
    rw [now, hput.around]
    exact hnow
  refine ⟨?_, ?_, ?_⟩
  · have hseen : (fl.put f d).sightings = fl.sightings ++ fl.told f d.notes := by
      simp [Floor.sightings, hput.seen, told]
    rw [h.sightings, hseen, List.append_assoc, List.append_assoc]
  · intro s hs g hg
    rcases List.mem_append.1 hs with hs | hs
    · obtain ⟨n, -, rfl⟩ := List.mem_map.1 hs
      cases hg
      exact hlt
    · rw [← hput.length]
      exact h.known s hs g hg
  · intro s hs
    rw [List.append_assoc] at hs
    rcases List.mem_append.1 hs with hs | hs
    · obtain ⟨n, -, rfl⟩ := List.mem_map.1 hs
      rfl
    · rw [← hnow']
      exact h.time s hs

theorem unfolds_put {d : Desk} (hv : fl.lane? f = some v) (hd : v.desk.Fits d) :
    fl.Unfolds (fl.put f d) (fl.told f d.notes) none := by
  obtain ⟨x, hx, -⟩ := lane?_eq_some.1 hv
  have hlt : f < fl.flights.length := (List.getElem?_eq_some_iff.1 hx).1
  have hnow : d.around.now = fl.now := by
    rw [hd.now]
    exact congrArg Surroundings.now (around_of_lane hv)
  have h := Unfolds.after_put (d := d) hlt hnow (unfolds_nothing rfl)
  rwa [List.append_nil] at h

/-- What a worker shows in its turn. -/
theorem unfolds_workerTurn (e : Engine) (hA : fl.Assigned) (w : Nat) :
    ∃ ss last, fl.Unfolds (e.workerTurn w fl) ss last := by
  generalize hfl' : e.workerTurn w fl = fl'
  cases hfl' ▸ e.serves_workerTurn hA w with
  | missing get => exact ⟨[], none, unfolds_nothing rfl⟩
  | rest get done => exact ⟨[], none, unfolds_nothing rfl⟩
  | stop get duty => exact ⟨[], none, unfolds_nothing rfl⟩
  | seek get busy off seeks =>
    obtain ⟨ss, last, h⟩ := unfolds_sought seeks.sought
    exact ⟨ss, last, h.sightings, h.known, h.time⟩
  | @tend worker f v _ get lane own post next =>
    have hlane := Engine.lane?_idled lane own
    have hfits := (v.tends_tend e post).fits post
    obtain ⟨x, hx, -⟩ := lane?_eq_some.1 hlane
    have hnow : (v.tend e).1.around.now = (Engine.idled w fl).now := by
      rw [hfits.now]
      exact congrArg Surroundings.now (around_of_lane hlane)
    obtain ⟨ss, last, h⟩ := unfolds_carries next
    have h' := h.after_put (List.getElem?_eq_some_iff.1 hx).1 hnow
    exact ⟨_, last, h'.sightings, h'.known, h'.time⟩

/-- **What a move shows**: a job that is taken is the last to be seen. -/
theorem unfolds_moves (h : fl.Numbered) (hm : e.Moves fl fl') :
    ∃ ss last, fl.Unfolds fl' ss last := by
  cases hm with
  | @turn t rest ready other =>
    have hA : { fl with ready := rest }.Assigned := assigned_of_same h.assigned rfl rfl
    suffices hstep : ∃ ss last, { fl with ready := rest }.Unfolds
        (e.step t { fl with ready := rest }) ss last by
      obtain ⟨ss, last, hu⟩ := hstep
      exact ⟨ss, last, hu.sightings, hu.known, hu.time⟩
    generalize ({ fl with ready := rest } : Floor σ) = fl at hA
    have hsteps := steps_step e t fl
    generalize e.step t fl = fl' at hsteps
    cases hsteps with
    | desk c lane =>
      exact ⟨_, none, unfolds_put lane (e.fits_cueTurn rfl rfl (call_of_away lane) c)⟩
    | worker w => exact unfolds_workerTurn e hA w
    | errand act g ts =>
      refine ⟨(act.proceed fl.around).notes.map fun n => ⟨fl.now, none, n⟩, none, by
          simp [sightings], ?_,
        by simp⟩
      intro s hs f hf
      obtain ⟨n, -, rfl⟩ := List.mem_map.1 hs
      cases hf
    | scheduler => exact absurd rfl other
    | _ => exact ⟨[], none, unfolds_nothing rfl⟩
  | round ready next =>
    refine ⟨[], none, unfolds_nothing ?_⟩
    rw [(nextRound_eq_some next).2.2]

/-- **What was seen up to some point was seen before the run, or up to a moment of it and then of
flights that were there at that moment.** -/
theorem exists_moment (h : fl.Orderly) (hl : e.Leads fl m) {past : List Sighting}
    (hp : past <+: m.sightings) :
    past <+: fl.sightings ∨ ∃ n ss, e.Leads fl n ∧ e.Leads n m ∧ past = n.sightings ++ ss ∧
      ∀ s ∈ ss, ∀ f, s.flight = some f → f < n.flights.length := by
  induction hl with
  | refl => exact .inl hp
  | @tail m m' hl hm ih =>
    obtain ⟨ss, last, hu⟩ := unfolds_moves (h.leads hl).numbered hm
    have hbefore : ∀ qs, past = m.sightings ++ qs → qs <+: ss → past <+: fl.sightings ∨
        ∃ n ss, e.Leads fl n ∧ e.Leads n m' ∧ past = n.sightings ++ ss ∧
          ∀ s ∈ ss, ∀ f, s.flight = some f → f < n.flights.length :=
      fun qs hpast hq => .inr ⟨m, qs, hl, .single hm, hpast, fun s hs => hu.known s (hq.mem hs)⟩
    obtain ⟨ts, hts⟩ := hp
    rw [hu.sightings] at hts
    rcases List.append_eq_append_iff.1 hts with ⟨as, has, -⟩ | ⟨qs, hpast, hqs⟩
    · rcases ih ⟨as, has.symm⟩ with hp | ⟨n, ss, hln, hnm, hpast, hknown⟩
      · exact .inl hp
      · exact .inr ⟨n, ss, hln, hnm.tail hm, hpast, hknown⟩
    -- What is seen in the move itself: up to the job that is taken, or all of it.
    · have hq : qs <+: ss ++ last.toList := ⟨ts, hqs.symm⟩
      cases last with
      | none =>
        rw [Option.toList_none, List.append_nil] at hq
        exact hbefore qs hpast hq
      | some s =>
        rcases List.prefix_concat_iff.1 hq with rfl | hq
        · refine .inr ⟨m', [], hl.tail hm, .refl, ?_, by simp⟩
          rw [hpast, hu.sightings, List.append_nil]
          rfl
        · exact hbefore qs hpast hq

/-- In a move in which something is seen, no time passes. -/
theorem now_of_unfolds {ss : List Sighting} {last : Option Sighting} (h : fl.Numbered)
    (hm : e.Moves fl fl') (hu : fl.Unfolds fl' ss last) (hne : ss ++ last.toList ≠ []) :
    fl'.now = fl.now := by
  cases hm with
  | @turn t rest ready other =>
    have hA : { fl with ready := rest }.Assigned := assigned_of_same h.assigned rfl rfl
    obtain ⟨ss, hss⟩ := tells_step e hA t
    exact hss.now
  | round ready next =>
    have hsame : fl'.sightings = fl.sightings := by
      rw [(nextRound_eq_some next).2.2]
      rfl
    rw [hu.sightings] at hsame
    exact absurd (List.append_right_eq_self.1 hsame) hne

/-- **What was seen was seen before the run, or in a move of it.** -/
theorem exists_move (h : fl.Orderly) (hl : e.Leads fl m) {before after : List Sighting}
    {x : Sighting}
    (hx : m.sightings = before ++ x :: after) :
    before ++ [x] <+: fl.sightings ∨ ∃ n n' ss rest, e.Leads fl n ∧ e.Moves n n' ∧ e.Leads n' m ∧
      before = n.sightings ++ ss ∧ n'.sightings = before ++ x :: rest ∧ x.time = n.now ∧
      n'.now = n.now ∧ ∀ s ∈ ss, ∀ f, s.flight = some f → f < n.flights.length := by
  induction hl generalizing after with
  | refl => exact .inl ⟨after, by rw [hx, List.append_assoc]; rfl⟩
  | @tail m m' hl hm ih =>
    have hnumbered := (h.leads hl).numbered
    obtain ⟨ss, last, hu⟩ := unfolds_moves hnumbered hm
    have hparts : m.sightings ++ (ss ++ last.toList) = before ++ x :: after :=
      hu.sightings.symm.trans hx
    rcases List.append_eq_append_iff.1 hparts with ⟨as, hbefore, hnew⟩ | ⟨as, hm', hafter⟩
    -- It is seen in the last move.
    · have hx' : x ∈ ss ++ last.toList := by
        rw [hnew]
        exact List.mem_append_right _ List.mem_cons_self
      have hne : ss ++ last.toList ≠ [] := List.ne_nil_of_mem hx'
      refine .inr ⟨m, m', as, after, hl, hm, .refl, hbefore, hx, hu.time x hx',
        now_of_unfolds hnumbered hm hu hne, fun s hs => hu.known s ?_⟩
      have hpre : as ++ [x] <+: ss ++ last.toList :=
        ⟨after, by rw [hnew, List.append_assoc]; rfl⟩
      cases last with
      | none =>
        rw [Option.toList_none, List.append_nil] at hpre
        exact hpre.mem (List.mem_append_left _ hs)
      | some y =>
        rcases List.prefix_concat_iff.1 hpre with heq | hpre
        · rw [List.append_inj_left' heq rfl] at hs
          exact hs
        · exact hpre.mem (List.mem_append_left _ hs)
    -- It was seen before.
    · cases as with
      | nil =>
        rw [List.append_nil] at hm'
        rw [List.nil_append] at hafter
        have hx' : x ∈ ss ++ last.toList := by
          rw [← hafter]
          exact List.mem_cons_self
        refine .inr ⟨m, m', [], after, hl, hm, .refl, by rw [hm', List.append_nil], hx,
            hu.time x hx',
          now_of_unfolds hnumbered hm hu (List.ne_nil_of_mem hx'), fun s hs => by cases hs⟩
      | cons y as =>
        obtain ⟨rfl, -⟩ := List.cons.inj hafter
        rcases ih hm' with hold | ⟨n, n', ss, rest, hn, hmove, hn', hrest⟩
        · exact .inl hold
        · exact .inr ⟨n, n', ss, rest, hn, hmove, hn'.tail hm, hrest⟩

/-- What a move adds to what was seen of a flight is seen at once. -/
theorem seenOf_moves (h : fl.Numbered) (hm : e.Moves fl fl') (f : Nat) :
    ∃ new : List TimedNote, seenOf f fl'.seen = seenOf f fl.seen ++ new ∧ ∀ n ∈ new, n.1 =
    fl.now := by
  obtain ⟨ss, hseen, -, htime, -⟩ := moves_tells h hm
  refine ⟨ss.filterMap fun s => if s.flight = some f then some (s.time, s.note) else
    none, ?_, ?_⟩
  · simp [seenOf, hseen, List.filterMap_append]
  · intro n hn
    obtain ⟨s, hs, heq⟩ := List.mem_filterMap.1 hn
    split at heq
    · rw [← Option.some.inj heq]
      exact htime s hs
    · cases heq

/-- The clock does not go back. -/
theorem now_le_moves (h : fl.Numbered) (hm : e.Moves fl fl') : fl.now ≤ fl'.now := by
  cases hm with
  | @turn t rest ready other =>
    have hA : { fl with ready := rest }.Assigned := assigned_of_same h.assigned rfl rfl
    obtain ⟨ss, hss⟩ := tells_step e hA t
    exact Nat.le_of_eq hss.now.symm
  | round ready next =>
    rw [(nextRound_eq_some next).2.1]
    split
    · exact Timer.le_wakeTime _ _
    · exact Nat.le_refl _

theorem now_le_leads (h : fl.Orderly) (hl : e.Leads fl fl') : fl.now ≤ fl'.now := by
  have hrun := hl.keeps (P := fun m => m.Orderly ∧ fl.now ≤ m.now) ?_ ⟨h, Nat.le_refl _⟩
  · exact hrun.2
  · rintro m m' ⟨ho, hle⟩ hm
    exact ⟨ho.moves hm, Nat.le_trans hle (now_le_moves ho.numbered hm)⟩

/-- A run that is canceled stays canceled. -/
theorem canceled_moves (h : fl.Numbered) (hm : e.Moves fl fl') (hc : fl.around.canceled = true) :
    fl'.around.canceled = true := by
  obtain ⟨ss, -, hcanceled, -⟩ := moves_tells h hm
  rw [hcanceled, canceledAfter, hc, Bool.true_or]

theorem canceled_leads (h : fl.Orderly) (hl : e.Leads fl fl') (hc : fl.around.canceled = true) :
    fl'.around.canceled = true := by
  have hrun := hl.keeps (P := fun m => m.Orderly ∧ m.around.canceled = true) ?_ ⟨h, hc⟩
  · exact hrun.2
  · rintro m m' ⟨ho, hc⟩ hm
    exact ⟨ho.moves hm, canceled_moves ho.numbered hm hc⟩

theorem Stopped.leads (hs : fl.Stopped) (h : fl.Orderly) (hl : e.Leads fl fl') :
    fl'.Stopped := by
  have hrun := hl.keeps (P := fun m => m.Orderly ∧ m.Stopped) ?_ ⟨h, hs⟩
  · exact hrun.2
  · rintro m m' ⟨ho, hs⟩ hm
    exact ⟨ho.moves hm, hs.moves ho.numbered hm⟩

/-- What all moves keep in a lane, a run keeps. -/
theorem Underway.lane_leads {jobs : List JobInstance} {first : Nat} {P : Lane → Prop}
    (h : fl.Underway e jobs first)
    (hstep : ∀ (n : Floor σ) (u u' : Lane), e.Leads fl n → n.lane? f = some u →
        u.Fine e first f →
      u.Passes e u' → P u → P u')
    (hv : fl.lane? f = some v) (hP : P v) (hl : e.Leads fl m) :
    ∃ v', m.lane? f = some v' ∧ P v' := by
  induction hl with
  | refl => exact ⟨v, hv, hP⟩
  | @tail n n' hln hm ih =>
    obtain ⟨u, hu, hPu⟩ := ih
    have hn := h.leads hln
    obtain ⟨u', hu', hpass⟩ := lane?_moves hn.orderly.numbered hm hu
    exact ⟨u', hu', hstep n u u' hln hu (hn.lanes f u hu) hpass hPu⟩

/-! ## While somebody waits -/

/-- What becomes of a floor on which nothing is scheduled. -/
structure Idles (fl fl' : Floor σ) : Prop where
  now : fl.now ≤ fl'.now
  canceled : fl.around.canceled = true → fl'.around.canceled = true
  flights : fl'.flights.length = fl.flights.length

variable {n n' : Floor σ}

theorem Idles.refl (fl : Floor σ) : fl.Idles fl := ⟨Nat.le_refl _, id, rfl⟩

theorem Idles.trans (h : fl.Idles n) (h' : n.Idles n') : fl.Idles n' :=
  ⟨Nat.le_trans h.now h'.now, fun hc => h'.canceled (h.canceled hc), h'.flights.trans h.flights⟩

/-- A move while somebody waits. -/
theorem Idles.moves (h : fl.Idles n) (ho : n.Orderly) (hw : n.Waits) (hm : e.Moves n n') :
    fl.Idles n' := by
  refine h.trans ⟨now_le_moves ho.numbered hm, canceled_moves ho.numbered hm, ?_⟩
  cases deals_moves ho hm with
  | keep queue length => exact length
  | take queue running length lane =>
    rw [hw.queue] at queue
    cases queue
  | drain canceled queue length refused => exact length

theorem Vacant.idles_await (h : fl.Vacant e) {a : Reception σ} {ending : Ending Unit}
    (hrun : e.await a fl = some (ending, fl')) : fl'.Vacant e ∧ fl.Idles fl' := by
  refine h.await_keeps (P := fl.Idles) (fun m m' haround hflights hm => ?_)
    (fun m m' ho hw hm hmove => hm.moves ho hw hmove) (.refl fl) hrun
  refine ⟨?_, ?_, (congrArg List.length hflights).trans hm.flights⟩
  · show fl.now ≤ m'.around.now
    rw [haround]
    exact hm.now
  · rw [haround]
    exact hm.canceled

end Floor

end Conveyor
