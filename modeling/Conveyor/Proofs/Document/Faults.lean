import Conveyor.Proofs.Document.Acceptance

/-!
# The faults of a document

Most faults say that the schema is not followed. Three do not: an integer may be too long to be
written out, a time limit may be out of range, and a policy may be too deep to be shown. Each
reader is followed to see that these have their reason in the value that is read.

- `DocumentFault.Excused`, `Justified`: the three faults have their reasons.
- `Schema.LimitsInRange`: no time limit is an integer out of range.
- `Schema.PolicyShallow`: the policy can be shown.
- `justified_readVariables`, `justified_readStep`, `justified_readJob`: the parts of a document.
- `PipelineDocument.justified_ofKnotted`: **the whole document**.
-/

namespace Conveyor

variable {α β : Type} {W T D : Prop} {ks : Knots} {v : Value} {es : List Value.Entry}
  {place key : Text}

/-- A fault outside the schema comes from an integer that is too long, against `W`, from a time
limit that is out of range, against `T`, or from a value that is too deep to be shown, against
`D`. -/
def DocumentFault.Excused (W T D : Prop) : DocumentFault → Prop
  | .unwritableInteger => ¬ W
  | .timeoutOverflow => ¬ T
  | .tooDeep => ¬ D
  | _ => True

/-- Every fault has its reason. -/
def Justified (W T D : Prop) (r : Reading α) : Prop :=
  ∀ fault, r = .error fault → fault.Excused W T D

theorem justified_ok (a : α) : Justified W T D (.ok a) := fun _ h => nomatch h

theorem justified_error {fault : DocumentFault} (h : fault.Excused W T D) :
    Justified W T D (.error fault : Reading α) := by
  rintro _ ⟨⟩
  exact h

theorem justified_bind {x : Reading α} {g : α → Reading β} (hx : Justified W T D x)
    (hg : ∀ a, x = .ok a → Justified W T D (g a)) : Justified W T D (x >>= g) := by
  cases x with
  | error fault => exact justified_error (hx fault rfl)
  | ok a => exact hg a rfl

theorem justified_if {c : Prop} [Decidable c] {x y : Reading α} (hx : c → Justified W T D x)
    (hy : ¬ c → Justified W T D y) : Justified W T D (if c then x else y) := by
  split
  · rename_i hc
    exact hx hc
  · rename_i hc
    exact hy hc

/-! ## Texts, lists and mappings -/

theorem justified_readMapping : Justified W T D (readMapping ks place v) := by
  rw [readMapping]
  cases ks.follow v with
  | null | map _ => exact justified_ok _
  | _ => exact justified_error trivial

theorem justified_readTexts : Justified W T D (readTexts ks place v) := by
  rw [readTexts]
  cases ks.follow v with
  | null => exact justified_ok _
  | list xs =>
    dsimp only
    split
    · exact justified_ok _
    · exact justified_error trivial
  | _ => exact justified_error trivial

theorem justified_readItems {fault : DocumentFault} (h : fault.Excused W T D) :
    Justified W T D (readItems ks fault v) := by
  rw [readItems]
  split
  · exact justified_error h
  · exact justified_ok _
  · exact justified_error h

theorem justified_requiredText : Justified W T D (requiredText place key es) := by
  rw [requiredText]
  split
  · exact justified_if (fun _ => justified_error trivial) fun _ => justified_ok _
  · exact justified_error trivial

/-! ## Variables -/

theorem justified_written (h : W → v.Writable) : Justified W T D (written v) := by
  rw [written]
  refine justified_if (fun hlong => justified_error fun hW => ?_) fun _ => justified_ok _
  rw [h hW] at hlong
  cases hlong

theorem justified_readScalar {k w : Value} (hk : W → k.Writable) (hw : W → w.Writable) :
    Justified W T D (readScalar place k w) := by
  cases w with
  | null | list _ | map _ | again _ _ =>
    -- The message names the key, so that is written out although the value is no good.
    rw [readScalar]
    exact justified_bind (justified_written hk) fun _ _ => justified_error trivial
  | bool b =>
    rw [readScalar]
    exact justified_bind (justified_written hk) fun _ _ => justified_ok _
  | int _ | float _ | text _ | date _ | stamp _ | bytes _ | set _ | pair _ _ =>
    simp only [readScalar]
    exact justified_bind (justified_written hk) fun _ _ => justified_written hw

theorem justified_readEntries (h : W → ∀ e ∈ es, e.1.Writable ∧ e.2.Writable) (acc : Bindings) :
    Justified W T D (readEntries place acc es) := by
  induction es generalizing acc with
  | nil => exact justified_ok acc
  | cons e es ih =>
    rw [readEntries]
    have hhead := fun hW => h hW e List.mem_cons_self
    refine justified_bind (justified_readScalar (fun hW => (hhead hW).1) fun hW => (hhead hW).2)
      ?_
    exact fun _ _ => ih (fun hW e' he' => h hW e' (List.mem_cons_of_mem _ he')) _

/-- The entries that are read from a value without long integers. -/
theorem writable_readMapping (hks : ks.Writable) (hv : v.Writable)
    (h : readMapping ks place v = .ok es) : ∀ e ∈ es, e.1.Writable ∧ e.2.Writable := by
  rw [entries_of_readMapping h]
  exact (hv.follow hks).entries

theorem justified_readVariables (h : W → ks.Writable ∧ v.Writable) :
    Justified W T D (readVariables ks place v) :=
  justified_bind justified_readMapping fun _ hes =>
    justified_readEntries (fun hW => writable_readMapping (h hW).1 (h hW).2 hes) []

/-! ## The trigger -/

mutual

theorem writable_replace {f : Nat → Bool → Value} (hf : ∀ label mapping,
    (f label mapping).Writable) :
    ∀ v : Value, v.Writable → (v.replace f).Writable
  | .list xs => fun h => by
    rw [Value.replace, Value.writable_list]
    exact writable_replaceAll hf xs (Value.writable_list.1 h)
  | .map es => fun h => by
    rw [Value.replace, Value.writable_map]
    exact writable_replaceEntries hf es (Value.writable_map.1 h)
  | .set xs => fun h => by
    rw [Value.replace, Value.writable_set]
    exact writable_replaceAll hf xs (Value.writable_set.1 h)
  | .pair a b => fun h => by
    obtain ⟨ha, hb⟩ := Value.writable_pair.1 h
    rw [Value.replace, Value.writable_pair]
    exact ⟨writable_replace hf a ha, writable_replace hf b hb⟩
  | .again label mapping => fun _ => by
    rw [Value.replace]
    exact hf label mapping
  | .null | .bool _ | .int _ | .float _ | .text _ | .date _ | .stamp _ | .bytes _ => fun h => by
    rw [Value.replace]
    · exact h
    all_goals simp

theorem writable_replaceAll {f : Nat → Bool → Value}
    (hf : ∀ label mapping, (f label mapping).Writable) :
    ∀ xs : List Value, (∀ x ∈ xs, x.Writable) → ∀ x ∈ Value.replaceAll f xs, x.Writable
  | [] => fun _ => List.forall_mem_nil _
  | x :: xs => fun h => by
    rw [List.forall_mem_cons] at h
    rw [Value.replaceAll, List.forall_mem_cons]
    exact ⟨writable_replace hf x h.1, writable_replaceAll hf xs h.2⟩

theorem writable_replaceEntries {f : Nat → Bool → Value}
    (hf : ∀ label mapping, (f label mapping).Writable) :
    ∀ es : List Value.Entry, (∀ e ∈ es, e.1.Writable ∧ e.2.Writable) →
      ∀ e ∈ Value.replaceEntries f es, e.1.Writable ∧ e.2.Writable
  | [] => fun _ => List.forall_mem_nil _
  | (k, w) :: es => fun h => by
    rw [List.forall_mem_cons] at h
    rw [Value.replaceEntries, List.forall_mem_cons]
    exact ⟨⟨writable_replace hf k h.1.1, writable_replace hf w h.1.2⟩,
      writable_replaceEntries hf es h.2⟩

end

theorem writable_unfoldWith (hks : ks.Writable) (fuel : Nat) (inside : List Nat)
    (h : v.Writable) :
    (ks.unfoldWith fuel inside v).Writable := by
  induction fuel generalizing inside v with
  | zero => exact h
  | succ fuel ih =>
    refine writable_replace (fun label mapping => ?_) v h
    split
    · rfl
    · exact ih _ (Value.Writable.follow rfl hks)

theorem writable_unfold (hks : ks.Writable) (h : v.Writable) : (ks.unfold v).Writable := by
  unfold Knots.unfold
  split
  · exact h
  · exact writable_unfoldWith hks _ _ h

/-- A text is itself, whatever it is unfolded with. -/
theorem depth_unfold_text (ks : Knots) (s : Text) :
    (ks.unfold (.text s)).depth ≤ Value.maxShownDepth := by
  have hdepth : (ks.unfold (.text s)).depth = 0 := by
    unfold Knots.unfold
    split
    · rfl
    · rw [Knots.unfoldWith, Value.replace]
      · rfl
      all_goals simp
  rw [hdepth]
  exact Nat.zero_le _

/-- The policy of a trigger is not nested too deep to be shown. -/
def Schema.TriggerShallow (ks : Knots) (v : Value) : Prop :=
  ∀ w, Value.lookup "path_policy" (ks.follow v).entries = some w →
    (ks.unfold w).depth ≤ Value.maxShownDepth

theorem justified_shownWhole (hwritable : W → v.Writable) (hdepth : D →
    v.depth ≤ Value.maxShownDepth) :
    Justified W T D (shownWhole v) := by
  refine justified_if (fun hlong => justified_error fun hW => ?_) fun _ =>
    justified_if (fun hdeep => justified_error fun hD => ?_) fun _ => justified_ok _
  · rw [hwritable hW] at hlong
    cases hlong
  · exact absurd (hdepth hD) (Nat.not_le.2 hdeep)

theorem justified_readTrigger (h : W → ks.Writable ∧ v.Writable)
    (hshallow : D → Schema.TriggerShallow ks v) : Justified W T D (readTrigger ks v) := by
  refine justified_bind justified_readMapping fun es hes => ?_
  refine justified_bind justified_readTexts fun branches _ => ?_
  refine justified_if (fun _ => justified_error trivial) fun _ => ?_
  dsimp only
  split
  -- An unknown policy is shown in the message, with all that is in it, and for that it is
  -- written out.
  · refine justified_bind (justified_shownWhole (fun hW => ?_) fun hD => ?_) fun _ _ =>
      justified_error trivial
    · obtain ⟨hks, hv⟩ := h hW
      refine writable_unfold hks ?_
      cases hlookup : Value.lookup "path_policy" es with
      | none => rfl
      | some w => exact (writable_readMapping hks hv hes _ (Value.mem_of_lookup hlookup)).2
    · cases hlookup : Value.lookup "path_policy" es with
      | none => exact depth_unfold_text ks "shallow"
      | some w =>
        rw [entries_of_readMapping hes] at hlookup
        exact hshallow hD w hlookup
  · exact justified_bind justified_readTexts fun _ _ => justified_ok _

/-! ## Steps and jobs -/

theorem justified_displayName {w : Value} {script : Text} {fault : DocumentFault}
    {tail : Text → Reading StepSpec} (hfault : fault.Excused W T D)
    (htail : ∀ name, Justified W T D (tail name)) :
    Justified W T D (match w with
      | .null => Except.ok (defaultName script) >>= tail
      | .text t => if t = "" then Except.error fault >>= tail else Except.ok t >>= tail
      | _ => Except.error fault >>= tail) := by
  split
  · exact htail _
  · exact justified_if (fun _ => justified_error hfault) fun _ => htail _
  · exact justified_error hfault

theorem justified_readStep (h : W → ks.Writable ∧ v.Writable) :
    Justified W T D (readStep ks place v) := by
  refine justified_bind justified_readMapping fun es hes => ?_
  refine justified_bind justified_requiredText fun script _ => ?_
  refine justified_if (fun _ => justified_error trivial) fun _ => ?_
  refine justified_bind justified_readTexts fun additive _ => ?_
  have henv (hW : W) : ks.Writable ∧ (Value.getD es "env").Writable :=
    ⟨(h hW).1, Value.writable_getD (writable_readMapping (h hW).1 (h hW).2 hes) _⟩
  refine justified_bind (justified_readVariables henv) fun env _ => ?_
  refine justified_displayName trivial fun name => ?_
  exact justified_if (fun _ => justified_ok _) fun _ => justified_error trivial

theorem justified_readSteps {xs : List Value} (h : W → ks.Writable ∧ ∀ x ∈ xs, x.Writable)
    (i : Nat) :
    Justified W T D (readSteps ks place i xs) := by
  induction xs generalizing i with
  | nil => exact justified_ok _
  | cons x xs ih =>
    rw [readSteps]
    have hx (hW : W) := List.forall_mem_cons.1 (h hW).2
    refine justified_bind (justified_readStep fun hW => ⟨(h hW).1, (hx hW).1⟩) fun _ _ => ?_
    exact justified_bind (ih (fun hW => ⟨(h hW).1, (hx hW).2⟩) _) fun _ _ => justified_ok _

theorem justified_readVariants (h : W → ks.Writable ∧ ∀ e ∈ es, e.1.Writable ∧ e.2.Writable)
    (acc : List (Text × Bindings)) : Justified W T D (readVariants ks place acc es) := by
  induction es generalizing acc with
  | nil => exact justified_ok _
  | cons e es ih =>
    rw [readVariants]
    have he (hW : W) := List.forall_mem_cons.1 (h hW).2
    refine justified_bind (justified_written fun hW => (he hW).1.1) fun _ _ => ?_
    refine justified_bind (justified_readVariables fun hW => ⟨(h hW).1, (he hW).1.2⟩) fun _ _ =>
      ?_
    exact ih (fun hW => ⟨(h hW).1, (he hW).2⟩) _

/-- The time limit of a job is no integer out of range. -/
def Schema.LimitInRange (ks : Knots) (v : Value) : Prop :=
  ∀ i, Value.lookup "timeout_minutes" (ks.follow v).entries = some (.int i) →
    i < Binary64.outOfRange

theorem justified_checkTimeout {w : Value} : Justified W T D (checkTimeout place w) := by
  cases w with
  | int i => exact justified_if (fun _ => justified_error trivial) fun _ => justified_ok _
  | float x => exact justified_if (fun _ => justified_error trivial) fun _ => justified_ok _
  | _ => exact justified_error trivial

/-- A time limit that was checked is in seconds unless it is an integer out of range. -/
theorem justified_timeoutSeconds {w minutes : Value} (hminutes : checkTimeout place w =
    .ok minutes)
    (h : T → ∀ i, w = .int i → i < Binary64.outOfRange) :
    Justified W T D (timeoutSeconds minutes) := by
  cases w with
  | int i =>
    rw [checkTimeout] at hminutes
    split at hminutes
    · cases hminutes
    · rename_i hpos
      cases hminutes
      rw [timeoutSeconds]
      split
      · exact justified_ok _
      · rename_i hnone
        refine justified_error fun hT => ?_
        have hrange : i.natAbs < Binary64.outOfRange := by
          have hi := h hT i rfl
          omega
        have hsome := (Binary64.isSome_ofInt?_iff i).2 hrange
        rw [hnone] at hsome
        cases hsome
  | float x =>
    rw [checkTimeout] at hminutes
    split at hminutes
    · cases hminutes
    · cases hminutes
      exact justified_ok _
  | _ => cases hminutes

/-- The time limit that counts is the one that is given, or one in range. -/
theorem limitInRange_getD (h : Schema.LimitInRange ks v)
    (hes : readMapping ks place v = .ok es) (i : Int)
    (hi : (Value.lookup "timeout_minutes" es).getD (.int defaultTimeoutMinutes) = .int i) :
    i < Binary64.outOfRange := by
  cases hlookup : Value.lookup "timeout_minutes" es with
  | none =>
    rw [hlookup] at hi
    cases hi
    decide +kernel
  | some w =>
    rw [hlookup, Option.getD_some] at hi
    subst hi
    rw [entries_of_readMapping hes] at hlookup
    exact h i hlookup

theorem justified_containerImage {w : Value} {fault : DocumentFault}
    {tail : Option Text → Reading JobTemplate} (hfault : fault.Excused W T D)
    (htail : ∀ image, Justified W T D (tail image)) :
    Justified W T D (match w with
      | .null => Except.ok none >>= tail
      | .text s => Except.ok (some s) >>= tail
      | _ => Except.error fault >>= tail) := by
  split
  · exact htail _
  · exact htail _
  · exact justified_error hfault

theorem justified_readJob (h : W → ks.Writable ∧ v.Writable) (hlimit : T →
    Schema.LimitInRange ks v)
    (i : Nat) : Justified W T D (readJob ks i v) := by
  refine justified_bind justified_readMapping fun es hes => ?_
  have hfield (hW : W) (key : Text) : ks.Writable ∧ (Value.getD es key).Writable :=
    ⟨(h hW).1, Value.writable_getD (writable_readMapping (h hW).1 (h hW).2 hes) key⟩
  refine justified_bind justified_requiredText fun name _ => ?_
  refine justified_bind justified_checkTimeout fun minutes hminutes => ?_
  have hseconds : Justified W T D (timeoutSeconds minutes) :=
    justified_timeoutSeconds hminutes fun hT => limitInRange_getD (hlimit hT) hes
  refine justified_containerImage trivial fun image => ?_
  refine justified_bind justified_readMapping fun matrix hmatrix => ?_
  have hentries (hW : W) : ks.Writable ∧ ∀ e ∈ matrix, e.1.Writable ∧ e.2.Writable :=
    ⟨(h hW).1, writable_readMapping (h hW).1 (hfield hW _).2 hmatrix⟩
  refine justified_bind (justified_readVariants hentries []) fun variants _ => ?_
  refine justified_bind (justified_readItems trivial) fun raw hraw => ?_
  have hitems (hW : W) : ks.Writable ∧ ∀ x ∈ raw, x.Writable :=
    ⟨(h hW).1, Value.writable_items (h hW).1 (hfield hW _).2 (readItems_eq_ok_iff.1 hraw).1⟩
  refine justified_bind (justified_readSteps hitems 0) fun steps _ => ?_
  refine justified_bind hseconds fun seconds _ => ?_
  exact justified_bind (justified_readVariables fun hW => hfield hW _) fun _ _ => justified_ok _

theorem justified_readJobs {xs : List Value} (h : W → ks.Writable ∧ ∀ x ∈ xs, x.Writable)
    (hlimits : T → ∀ x ∈ xs, Schema.LimitInRange ks x) (i : Nat) :
    Justified W T D (readJobs ks i xs) := by
  induction xs generalizing i with
  | nil => exact justified_ok _
  | cons x xs ih =>
    rw [readJobs]
    have hx (hW : W) := List.forall_mem_cons.1 (h hW).2
    have hlimit (hT : T) := List.forall_mem_cons.1 (hlimits hT)
    refine justified_bind
      (justified_readJob (fun hW => ⟨(h hW).1, (hx hW).1⟩) (fun hT => (hlimit hT).1) i)
        fun _ _ => ?_
    exact justified_bind (ih (fun hW => ⟨(h hW).1, (hx hW).2⟩) (fun hT => (hlimit hT).2) _)
      fun _ _ => justified_ok _

/-! ## Documents -/

/-- No time limit of a job is an integer out of range. -/
def Schema.LimitsInRange (ks : Knots) (v : Value) : Prop :=
  ∀ x ∈ (ks.follow (Value.getD (ks.follow v).entries "jobs")).items, Schema.LimitInRange ks x

/-- The policy of a document is not nested too deep to be shown. -/
def Schema.PolicyShallow (ks : Knots) (v : Value) : Prop :=
  Schema.TriggerShallow ks (Value.getD (ks.follow v).entries "trigger")

/-- **The faults outside the schema have their reasons**: an integer that is too long to be
written out, a time limit out of range, or a policy that is too deep to be shown. -/
theorem PipelineDocument.justified_ofKnotted (ks : Knots) (v : Value) :
    Justified (ks.Writable ∧ v.Writable) (Schema.LimitsInRange ks v) (Schema.PolicyShallow ks v)
      (ofKnotted ks v) := by
  refine justified_bind justified_readMapping fun es hes => ?_
  have hfield (hW : ks.Writable ∧ v.Writable) (key : Text) :
      ks.Writable ∧ (Value.getD es key).Writable :=
    ⟨hW.1, Value.writable_getD (writable_readMapping hW.1 hW.2 hes) key⟩
  refine justified_bind (justified_readItems trivial) fun raw hraw => ?_
  obtain ⟨hraw, -⟩ := readItems_eq_ok_iff.1 hraw
  have hitems (hW : ks.Writable ∧ v.Writable) : ks.Writable ∧ ∀ x ∈ raw, x.Writable :=
    ⟨hW.1, Value.writable_items hW.1 (hfield hW _).2 hraw⟩
  have hlimits (hT : Schema.LimitsInRange ks v) : ∀ x ∈ raw, Schema.LimitInRange ks x := by
    rw [Schema.LimitsInRange, ← entries_of_readMapping hes, hraw] at hT
    exact hT
  refine justified_bind (justified_readJobs hitems hlimits 0) fun jobs _ => ?_
  refine justified_if (fun _ => ?_) fun _ => justified_error trivial
  have hshallow (hD : Schema.PolicyShallow ks v) :
      Schema.TriggerShallow ks (Value.getD es "trigger") := by
    rw [Schema.PolicyShallow, ← entries_of_readMapping hes] at hD
    exact hD
  refine justified_bind (justified_readTrigger (fun hW => hfield hW _) hshallow) fun trigger _ =>
    ?_
  exact justified_bind (justified_readVariables fun hW => hfield hW _) fun _ _ => justified_ok _

end Conveyor
