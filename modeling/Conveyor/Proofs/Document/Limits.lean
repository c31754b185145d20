import Conveyor.Proofs.Document.Acceptance
import Conveyor.Proofs.Job.Expandable
import Conveyor.Proofs.Yaml.Grid

/-!
# The time limits of a document

A job is given its time limit in minutes. Zero, what is less, and what is no number at all is
refused. The undefined number is neither above zero nor zero or less; it passes, and the limit in
seconds is then undefined as well. All other limits that pass are positive, and stay so when they
are turned into seconds.

- `Schema.jobsOf`, `Schema.limitOf`: the jobs of a decoded document, and their limits in minutes.
- `Schema.LimitPasses`: **the limits that pass**.
- `JobTemplate.Limited`, `JobInstance.Limited`: a job with its limit, in minutes and in seconds.
- `PipelineDocument.limited_instances`: all instances of a document that is accepted.
- `DocumentFault.OfBadLimit`: what is said of a limit that does not pass.
- `Schema.RefusesLimits`, `PipelineDocument.refusesLimits`: a document with such a limit is
  refused.
- `Schema.LimitsOnGrid`, `Schema.limitsOnGrid_of_decode`: the limits are numbers of the format,
  as those of files are.
-/

namespace Conveyor

variable {ks : Knots} {v w x minutes : Value} {place : Text}

/-! ## Limits in minutes -/

namespace Value

/-- A number above zero. -/
def IsPositive : Value → Prop
  | .int i => 0 < i
  | .float x => x.IsPositive
  | _ => False

/-- The undefined number. -/
def IsUndefined : Value → Prop
  | .float x => x = .nan
  | _ => False

instance : DecidablePred IsPositive
  | .int i => inferInstanceAs (Decidable (0 < i))
  | .float x => inferInstanceAs (Decidable x.IsPositive)
  | .null | .bool _ | .text _ | .list _ | .map _ | .date _ | .stamp _ | .bytes _ | .set _
  | .pair _ _
  | .again _ _ => .isFalse id

instance : DecidablePred IsUndefined
  | .float x => inferInstanceAs (Decidable (x = .nan))
  | .null | .bool _ | .int _ | .text _ | .list _ | .map _ | .date _ | .stamp _ | .bytes _
  | .set _
  | .pair _ _ | .again _ _ => .isFalse id

end Value

/-- A limit passes if it is above zero, or undefined. -/
theorem checkTimeout_eq_ok (h : checkTimeout place w = .ok minutes) :
    minutes = w ∧ (w.IsPositive ∨ w.IsUndefined) := by
  cases w with
  | int i =>
    rw [checkTimeout] at h
    split at h
    · cases h
    · rename_i hpos
      cases h
      exact ⟨rfl, .inl (not_le.1 hpos)⟩
  | float x =>
    rw [checkTimeout] at h
    split at h
    · cases h
    · rename_i hpos
      cases h
      exact ⟨rfl, Binary64.isNonPositive_eq_false_iff.1 (Bool.eq_false_iff.2 hpos)⟩
  | _ => cases h

/-- Any other limit is refused. -/
theorem checkTimeout_of_not (hpos : ¬ w.IsPositive) (hdefined : ¬ w.IsUndefined) :
    checkTimeout place w = .error (.badTimeout place) := by
  cases h : checkTimeout place w with
  | ok minutes => exact absurd (checkTimeout_eq_ok h).2 (not_or.2 ⟨hpos, hdefined⟩)
  | error fault =>
    cases w with
    | int i | float x =>
      rw [checkTimeout] at h
      split at h
      · exact h.symm
      · cases h
    | _ => exact h.symm

/-! ## Limits in seconds -/

theorem secondsPerMinute_eq : secondsPerMinute = .finite false (60 * 2 ^ 47) (-47) := by
  decide

/-- A positive limit is positive in seconds. -/
theorem isPositive_timeoutSeconds {seconds : Binary64} (hgrid : w.OnGrid) (hpos : w.IsPositive)
    (h : timeoutSeconds w = .ok seconds) : seconds.IsPositive := by
  -- A factor of at least one cannot take a number on the grid below the least one above zero.
  have hminute : 2 ^ (-(-47 : Int)).toNat ≤ 60 * 2 ^ 47 := by decide
  cases w with
  | int i =>
    rw [timeoutSeconds] at h
    split at h
    · rename_i y hy
      cases h
      obtain rfl : Binary64.ofInt i = y := by
        unfold Binary64.ofInt? at hy
        split at hy
        · cases hy
        · exact Option.some.inj hy
      rw [secondsPerMinute_eq]
      exact (Binary64.isPositive_ofInt hpos).mul_of_one_le (Binary64.onGrid_ofRatio ..) hminute
    · cases h
  | float x =>
    cases h
    rw [secondsPerMinute_eq]
    exact hpos.mul_of_one_le hgrid hminute
  | _ => exact hpos.elim

/-- An undefined limit is undefined in seconds. -/
theorem timeoutSeconds_of_isUndefined (h : w.IsUndefined) : timeoutSeconds w = .ok .nan := by
  cases w with
  | float x =>
    rw [Value.IsUndefined] at h
    rw [h]
    rfl
  | _ => exact h.elim

/-! ## Jobs -/

namespace Schema

/-- The jobs of a decoded document. -/
def jobsOf (ks : Knots) (v : Value) : List Value :=
  (ks.follow (Value.getD (ks.follow v).entries "jobs")).items

/-- The limit of a job in minutes: the one that is given, or the default. -/
def limitOf (ks : Knots) (x : Value) : Value :=
  (Value.lookup "timeout_minutes" (ks.follow x).entries).getD (.int defaultTimeoutMinutes)

/-- Does the limit of a job pass? -/
def LimitPasses (ks : Knots) (x : Value) : Prop :=
  (limitOf ks x).IsPositive ∨ (limitOf ks x).IsUndefined

/-- Are the limits of the jobs numbers of the format? Those of every file are. -/
def LimitsOnGrid (ks : Knots) (v : Value) : Prop := ∀ x ∈ jobsOf ks v, (limitOf ks x).OnGrid

end Schema

/-- A job whose limit has passed: the limit in seconds is that in minutes. -/
structure JobTemplate.Limited (ks : Knots) (x : Value) (t : JobTemplate) : Prop where
  name : Schema.nameOf ks x = some t.name
  passes : Schema.LimitPasses ks x
  seconds : Conveyor.timeoutSeconds (Schema.limitOf ks x) = .ok t.timeoutSeconds

theorem limited_readJob {i : Nat} {t : JobTemplate} (h : readJob ks i x = .ok t) :
    t.Limited ks x := by
  have hname := (readJob_eq_ok h).2.name
  obtain ⟨es, hes, h⟩ := bind_eq_ok h
  obtain ⟨_, -, h⟩ := bind_eq_ok h
  obtain ⟨minutes, hminutes, h⟩ := bind_eq_ok h
  obtain ⟨rfl, hpasses⟩ := checkTimeout_eq_ok hminutes
  rw [entries_of_readMapping hes] at h hpasses
  obtain ⟨-, _, h⟩ := containerImage_eq_ok h
  obtain ⟨_, -, h⟩ := bind_eq_ok h
  obtain ⟨_, -, h⟩ := bind_eq_ok h
  obtain ⟨_, -, h⟩ := bind_eq_ok h
  obtain ⟨_, -, h⟩ := bind_eq_ok h
  -- The limit is turned into seconds only after the steps were read.
  obtain ⟨seconds, hseconds, h⟩ := bind_eq_ok h
  obtain ⟨_, -, h⟩ := bind_eq_ok h
  cases h
  exact ⟨hname, hpasses, hseconds⟩

theorem limited_readJobs {i : Nat} {xs : List Value} {ts : List JobTemplate}
    (h : readJobs ks i xs = .ok ts) : List.Forall₂ (JobTemplate.Limited ks) xs ts :=
  forall₂_readJobs (fun _ _ _ => limited_readJob) h

/-- The jobs of a document that is accepted have been read. -/
theorem PipelineDocument.readJobs_of_ofKnotted {d : PipelineDocument} (h : ofKnotted ks v =
    .ok d) :
    readJobs ks 0 (Schema.jobsOf ks v) = .ok d.jobs := by
  obtain ⟨es, hes, h⟩ := bind_eq_ok h
  obtain ⟨raw, hraw, h⟩ := bind_eq_ok h
  obtain ⟨hraw, -⟩ := readItems_eq_ok_iff.1 hraw
  obtain ⟨jobs, hjobs, h⟩ := bind_eq_ok h
  rw [entries_of_readMapping hes] at hraw
  rw [Schema.jobsOf, hraw]
  dsimp only at h
  split at h
  · obtain ⟨_, -, h⟩ := bind_eq_ok h
    obtain ⟨_, -, h⟩ := bind_eq_ok h
    cases h
    exact hjobs
  · cases h

/-! ## Instances -/

/-- An instance of a job of the document: a positive limit is positive in seconds, an undefined
one is undefined. -/
structure JobInstance.Limited (ks : Knots) (x : Value) (i : JobInstance) : Prop where
  name : Schema.nameOf ks x = some i.templateName
  seconds : Conveyor.timeoutSeconds (Schema.limitOf ks x) = .ok i.timeoutSeconds
  sign :
    (Schema.limitOf ks x).IsPositive ∧ i.timeoutSeconds.IsPositive ∨
      (Schema.limitOf ks x).IsUndefined ∧ i.timeoutSeconds = .nan

/-- The instances of a job have its limit. -/
theorem JobTemplate.Limited.expanded {n : TemplateVariant} {i : JobInstance}
    (h : n.template.Limited ks x) (hgrid : (Schema.limitOf ks x).OnGrid) (hi : n.Expanded i) :
    i.Limited ks x := by
  have hname := h.name
  have hseconds := h.seconds
  rw [← hi.templateName] at hname
  rw [← hi.timeoutSeconds] at hseconds
  refine ⟨hname, hseconds, ?_⟩
  obtain hpos | hundefined := h.passes
  · exact .inl ⟨hpos, isPositive_timeoutSeconds hgrid hpos hseconds⟩
  · rw [timeoutSeconds_of_isUndefined hundefined] at hseconds
    exact .inr ⟨hundefined, (Except.ok.inj hseconds).symm⟩

/-- The variants of a job are variants of that job. -/
theorem JobTemplate.template_of_mem_declared {t : JobTemplate} {n : TemplateVariant}
    (h : n ∈ t.declared) :
    n.template = t := by
  rw [declared_eq] at h
  obtain ⟨_, -, rfl⟩ := List.mem_map.1 h
  rfl

/-- **All instances of a document that is accepted have limits that have passed.** -/
theorem PipelineDocument.limited_instances {d : PipelineDocument} {vars : Bindings}
    {jobs : List JobInstance}
    (hd : ofKnotted ks v = .ok d) (hgrid : Schema.LimitsOnGrid ks v)
    (hjobs : expandAll d.jobs vars = .ok jobs) :
    ∀ i ∈ jobs, ∃ x ∈ Schema.jobsOf ks v, i.Limited ks x := by
  intro i hi
  obtain ⟨n, hn, hexpanded⟩ := exists_mem_of_forall₂ (expanded_of_expandAll hjobs) hi
  obtain ⟨t, ht, hn⟩ := List.mem_flatMap.1 hn
  obtain ⟨x, hx, hlimited⟩ :=
    exists_mem_of_forall₂ (limited_readJobs (readJobs_of_ofKnotted hd)) ht
  rw [← JobTemplate.template_of_mem_declared hn] at hlimited
  exact ⟨x, hx, hlimited.expanded (hgrid x hx) hexpanded⟩

/-! ## Limits that do not pass -/

/-- What is said of the `i`-th job if its limit does not pass: it has no name, or it has one, and
the limit is bad. -/
inductive DocumentFault.OfBadLimit (ks : Knots) (i : Nat) (x : Value) : DocumentFault → Prop
  | nameless (hname : ∀ name, Schema.nameOf ks x = some name → name = "") :
      OfBadLimit ks i x (.missingText ("jobs[" ++ Nat.repr i ++ "]") "name")
  | limit {name : Text} (hname : Schema.nameOf ks x = some name) (hsome : name ≠ "") :
      OfBadLimit ks i x (.badTimeout ("job " ++ name))

theorem requiredText_eq_error {es : List Value.Entry} {key : Text} {fault : DocumentFault}
    (h : requiredText place key es = .error fault) :
    fault = .missingText place key ∧ ∀ s, Value.getD es key = .text s → s = "" := by
  constructor
  · rw [requiredText] at h
    split at h
    · split at h <;> cases h
      rfl
    · cases h
      rfl
  · intro s hs
    by_contra hsome
    rw [requiredText_eq_ok_iff.2 ⟨hs, hsome⟩] at h
    cases h

/-- A job whose limit is given is a mapping. -/
theorem follow_of_badLimit (h : ¬ Schema.LimitPasses ks x) : ∃ es, ks.follow x = .map es := by
  have hdefault : (Value.int defaultTimeoutMinutes).IsPositive := by decide
  cases hx : ks.follow x with
  | map es => exact ⟨es, rfl⟩
  | _ =>
    refine absurd (.inl ?_) h
    rw [Schema.limitOf, hx]
    exact hdefault

theorem nameOf_eq_some_iff {name : Text} :
    Schema.nameOf ks x = some name ↔ Value.getD (ks.follow x).entries "name" = .text name := by
  rw [Schema.nameOf]
  cases Value.getD (ks.follow x).entries "name" <;> simp

/-- **A limit that does not pass is refused.** -/
theorem readJob_of_badLimit (h : ¬ Schema.LimitPasses ks x) (i : Nat) :
    ∃ fault, readJob ks i x = .error fault ∧ fault.OfBadLimit ks i x := by
  obtain ⟨es, hmap⟩ := follow_of_badLimit h
  have hes : readMapping ks ("jobs[" ++ Nat.repr i ++ "]") x = .ok es :=
    readMapping_eq_ok_iff.2 (.inr hmap)
  have hentries := entries_of_readMapping hes
  -- The name is read before the limit, so a job without one is refused for that.
  cases hname : requiredText ("jobs[" ++ Nat.repr i ++ "]") "name" es with
  | error fault =>
    obtain ⟨rfl, hnone⟩ := requiredText_eq_error hname
    rw [hentries] at hnone
    refine ⟨_, (bind_of_ok hes).trans (bind_of_error hname), .nameless fun name hsome => ?_⟩
    exact hnone name (nameOf_eq_some_iff.1 hsome)
  | ok name =>
    have hlimit : checkTimeout ("job " ++ name)
        ((Value.lookup "timeout_minutes" es).getD (.int defaultTimeoutMinutes)) =
          .error (.badTimeout ("job " ++ name)) := by
      rw [hentries]
      exact checkTimeout_of_not (fun hpos => h (.inl hpos)) fun hundefined => h (.inr hundefined)
    have hrefused : readJob ks i x = .error (.badTimeout ("job " ++ name)) := by
      refine (bind_of_ok hes).trans ?_
      refine (bind_of_ok hname).trans ?_
      exact bind_of_error hlimit
    obtain ⟨hname, hsome⟩ := requiredText_eq_ok_iff.1 hname
    rw [hentries] at hname
    exact ⟨_, hrefused, .limit (nameOf_eq_some_iff.2 hname) hsome⟩

/-- The first job that is at fault decides. -/
theorem readJobs_of_fault {before after : List Value} {i : Nat} {ts : List JobTemplate}
    {fault : DocumentFault}
    (hbefore : readJobs ks i before = .ok ts) (hx : readJob ks (i + before.length) x =
        .error fault) :
    readJobs ks i (before ++ x :: after) = .error fault := by
  induction before generalizing i ts with
  | nil => exact bind_of_error hx
  | cons y before ih =>
    rw [readJobs] at hbefore
    obtain ⟨job, hjob, hbefore⟩ := bind_eq_ok hbefore
    obtain ⟨rest, hrest, -⟩ := bind_eq_ok hbefore
    rw [List.length_cons, Nat.add_comm before.length, ← Nat.add_assoc] at hx
    rw [List.cons_append, readJobs]
    refine (bind_of_ok hjob).trans ?_
    exact bind_of_error (ih hrest hx)

/-- What becomes of a document with a limit that does not pass. -/
structure Schema.RefusesLimits (ks : Knots) (v : Value) : Prop where
  refused : ∀ x ∈ jobsOf ks v, ¬ LimitPasses ks x → ∃ fault, PipelineDocument.ofKnotted ks v =
    .error fault
  /-- If nothing is wrong with the jobs before it, it is the limit that is blamed. -/
  blamed : ∀ before x after ts, jobsOf ks v = before ++ x :: after → readJobs ks 0 before =
      .ok ts →
    ¬ LimitPasses ks x →
      ∃ fault, PipelineDocument.ofKnotted ks v = .error fault ∧
        fault.OfBadLimit ks before.length x

namespace PipelineDocument

/-- A document whose jobs are at fault is refused for that. -/
theorem ofKnotted_of_fault {fault : DocumentFault} (h : readJobs ks 0 (Schema.jobsOf ks v) =
    .error fault) :
    ofKnotted ks v = .error fault := by
  obtain ⟨es, hmap⟩ : ∃ es, ks.follow v = .map es := by
    cases hv : ks.follow v with
    | map es => exact ⟨es, rfl⟩
    | _ =>
      rw [Schema.jobsOf, hv] at h
      cases h
  have hes : readMapping ks "document" v = .ok es := readMapping_eq_ok_iff.2 (.inr hmap)
  rw [Schema.jobsOf, ← entries_of_readMapping hes] at h
  obtain ⟨xs, hxs⟩ : ∃ xs, ks.follow (Value.getD es "jobs") = .list xs := by
    cases hjobs : ks.follow (Value.getD es "jobs") with
    | list xs => exact ⟨xs, rfl⟩
    | _ =>
      rw [hjobs] at h
      cases h
  have hitems : readItems ks .noJobs (Value.getD es "jobs") = .ok xs := by
    refine readItems_eq_ok_iff.2 ⟨hxs, ?_⟩
    cases xs with
    | cons x xs => rfl
    | nil =>
      rw [hxs] at h
      cases h
  rw [hxs] at h
  refine (bind_of_ok hes).trans ?_
  refine (bind_of_ok hitems).trans ?_
  exact bind_of_error h

/-- **A document with a limit that does not pass is refused.** -/
theorem refusesLimits (ks : Knots) (v : Value) : Schema.RefusesLimits ks v := by
  constructor
  case refused =>
    intro x hx hpasses
    cases hd : ofKnotted ks v with
    | error fault => exact ⟨fault, rfl⟩
    | ok d =>
      obtain ⟨t, -, hlimited⟩ :=
        exists_mem_of_forall₂ (limited_readJobs (readJobs_of_ofKnotted hd)).flip hx
      exact absurd hlimited.passes hpasses
  case blamed =>
    intro before x after ts hjobs hbefore hpasses
    obtain ⟨fault, hfault, hblamed⟩ := readJob_of_badLimit hpasses (0 + before.length)
    rw [Nat.zero_add] at hblamed
    refine ⟨fault, ofKnotted_of_fault ?_, hblamed⟩
    rw [hjobs]
    exact readJobs_of_fault hbefore hfault

end PipelineDocument

/-! ## Files -/

namespace Value.OnGrid

theorem follow (h : v.OnGrid) (hks : ks.OnGrid) : (ks.follow v).OnGrid := by
  obtain hself | ⟨k, hk, hfollow⟩ := ks.follow_cases v
  · rwa [hself]
  · rw [hfollow]
    exact hks k hk

theorem lookup (h : v.OnGrid) {key : Text} (hw : Value.lookup key v.entries = some w) :
    w.OnGrid := by
  cases v with
  | map es => exact onGrid_map.1 h _ (mem_of_lookup hw)
  | _ => cases hw

theorem getD (h : v.OnGrid) (key : Text) : (Value.getD v.entries key).OnGrid := by
  rw [Value.getD]
  cases hkey : Value.lookup key v.entries with
  | none => trivial
  | some w => exact h.lookup hkey

theorem items (h : v.OnGrid) : ∀ x ∈ v.items, x.OnGrid := by
  cases v with
  | list xs => exact onGrid_list.1 h
  | _ => exact List.forall_mem_nil _

end Value.OnGrid

/-- **The limits of a file are numbers of the format.** -/
theorem Schema.limitsOnGrid_of_decode {bytes : List UInt8} (h : Yaml.decode bytes =
    .ok (v, ks)) :
    LimitsOnGrid ks v := by
  obtain ⟨hv, hks⟩ := Yaml.onGrid_decode h
  intro x hx
  have hjob : x.OnGrid := ((((hv.follow hks).getD "jobs").follow hks).items) x hx
  rw [limitOf]
  cases hlimit : Value.lookup "timeout_minutes" (ks.follow x).entries with
  | none => trivial
  | some w => exact (hjob.follow hks).lookup hlimit

end Conveyor
