import Conveyor.Container.Rehearsal
import Conveyor.Proofs.Activity.Plays

/-!
# What becomes of containers and directories

A container is brought up in a directory made for it, by commands that may fail in many ways:
they cannot be spawned, they complain, they complain in bytes that are no text, or they are
interrupted. What was made is discarded after a complaint and after an interruption, but not
after the other failures, and an interruption while it is discarded leaves the directory behind.

- `dealingsAmong`: the directories that are made and removed, and the commands that are spawned.
- `Concluded`: how a command can end.
- `ContainerHost.Acquisition`: **the five ways in which acquiring a unit ends, with all
  dealings**.
- `ContainerHost.returns_resources`: so it ends, and a release that is not interrupted removes
  what is left.
- `ContainerHost.leaked_directory`: a container engine that is not there leaves directories
  behind.
-/

namespace Conveyor

open Activity

/-! ## Dealings -/

/-- Is something made, removed or spawned? -/
def Note.deals : Note → Bool
  | .made _ | .removed _ | .spawned _ => true
  | _ => false

/-- What is made, removed and spawned among happenings, in order. -/
def dealingsAmong (hs : List Happening) : List Note := (seenAmong hs).filter Note.deals

@[simp] theorem dealingsAmong_nil : dealingsAmong [] = [] := rfl

@[simp] theorem dealingsAmong_append (hs hs' : List Happening) :
    dealingsAmong (hs ++ hs') = dealingsAmong hs ++ dealingsAmong hs' := by
  simp [dealingsAmong]

theorem dealingsAmong_seen (n : Note) (hs : List Happening) :
    dealingsAmong (.seen n :: hs) = if n.deals then n :: dealingsAmong hs else
    dealingsAmong hs := by
  rw [dealingsAmong, seenAmong, List.filter_cons]
  rfl

/-- Whatever is dealt with is seen. -/
theorem mem_dealingsAmong {n : Note} {hs : List Happening} (hn : n.deals = true) :
    n ∈ dealingsAmong hs ↔ n ∈ seenAmong hs := by
  simp [dealingsAmong, hn]

/-! ## Commands -/

/-- How a command on a container can end: with a result, with a complaint, without having been
spawned, with bytes that are no text, or by an interruption. -/
inductive Concluded {α : Type} : List Happening → Ending α → Prop
  | done (hs : List Happening) (x : α) : Concluded hs (.done x)
  | complained (hs : List Happening) (action complaint : Text) :
      Concluded hs (.failed (.commandFailed action complaint))
  | unspawned (hs : List Happening) (reason : Text) :
    Concluded hs (.failed (.spawnRefused reason))
  | undecodable (hs : List Happening) (part : Text.Utf8.Fault) :
    Concluded hs (.failed (.undecodable part))
  | cut {hs : List Happening} (cut : .cut ∈ hs) : Concluded hs .interrupted

theorem Concluded.append {α : Type} {hs : List Happening} {e : Ending α} (h : Concluded hs e)
    (before : List Happening) : Concluded (before ++ hs) e := by
  cases h with
  | done x => exact .done _ x
  | complained action complaint => exact .complained _ action complaint
  | unspawned reason => exact .unspawned _ reason
  | undecodable part => exact .undecodable _ part
  | cut hcut => exact .cut (List.mem_append_right _ hcut)

/-- A failure is the same for what goes on from it. -/
theorem Concluded.failed {α β : Type} {hs : List Happening} {fault : Fault}
    (h : Concluded hs (.failed fault : Ending α)) : Concluded hs (.failed fault : Ending β) := by
  cases h with
  | complained action complaint => exact .complained _ action complaint
  | unspawned reason => exact .unspawned _ reason
  | undecodable part => exact .undecodable _ part

/-- An interruption is the same for what goes on from it. -/
theorem Concluded.interrupted {α β : Type} {hs : List Happening}
    (h : Concluded hs (.interrupted : Ending α)) : Concluded hs (.interrupted : Ending β) := by
  cases h with
  | cut hcut => exact .cut hcut

/-- Waiting for a process deals with nothing, and ends with its reply unless it is
interrupted. -/
theorem plays_replyFrom {code : Int} {out err : List UInt8} {events : List ProcessEvent}
    {c c' : Bool}
    {hs : List Happening} {e : Ending Reply}
    (h : (ProcessPlay.replyFrom code out err events).Plays c hs c' e) :
    dealingsAmong hs = [] ∧ ((∃ reply, e = .done reply) ∨ e = .interrupted ∧ .cut ∈ hs) := by
  -- On the events, for any output that was read before.
  induction events generalizing out err c hs with
  | nil =>
    obtain ⟨rfl, rfl, rfl⟩ := Plays.of_finish h
    exact ⟨rfl, .inl ⟨_, rfl⟩⟩
  | cons event rest ih =>
    cases event with
    | out bytes => exact ih h
    | err bytes => exact ih h
    | pause span =>
      cases h with
      | waited stays rest => exact ih rest
      | cut stays rest =>
        obtain ⟨rfl, rfl, rfl⟩ := Plays.of_finish rest
        exact ⟨rfl, .inr ⟨rfl, List.mem_cons_self⟩⟩
    | signal =>
      obtain ⟨hs₁, c₁, e₁, hs₂, rfl, hask, hrest⟩ := Plays.of_andThen h
      obtain ⟨hnone, hend⟩ := ih hrest
      cases hask with
      | note hcancel =>
        cases hcancel with
        | cancel hdone =>
          obtain ⟨rfl, rfl, rfl⟩ := Plays.of_finish hdone
          refine ⟨?_, hend.imp id fun ⟨he, hcut⟩ => ⟨he, List.mem_append_right _ hcut⟩⟩
          rw [dealingsAmong_append, hnone]
          rfl

/-- Launching a process spawns it, or it cannot be spawned. -/
theorem plays_launch {h : Host} {v : Invocation} {c c' : Bool} {hs : List Happening}
    {e : Ending ProcessPlay} (hplays : (h.launch v).Plays c hs c' e) :
    hs = [.seen (.spawned v.argv)] ∧
      ((∃ play, e = .done play) ∨ ∃ reason, e = .failed (.spawnRefused reason)) := by
  obtain ⟨n, hdrawn⟩ := Plays.of_next hplays
  obtain ⟨hs', rfl, hspawn⟩ := Plays.of_tell hdrawn
  split at hspawn
  · obtain ⟨rfl, rfl, rfl⟩ := Plays.of_finish hspawn
    exact ⟨rfl, .inl ⟨_, rfl⟩⟩
  · obtain ⟨rfl, rfl, rfl⟩ := Plays.of_finish hspawn
    exact ⟨rfl, .inr ⟨_, rfl⟩⟩

/-- A command is spawned, whatever comes of it, and deals with nothing else. -/
theorem plays_converse {α : Type} {h : Host} {argv : List Text} {f : Reply → Activity Deed α}
    (hf : ∀ {reply c hs c' e}, (f reply).Plays c hs c' e → hs = [] ∧ Concluded [] e)
    {c c' : Bool}
    {hs : List Happening} {e : Ending α} (hplays : (h.converse argv >>= f).Plays c hs c' e) :
    ∃ hs', hs = .seen (.spawned argv) :: hs' ∧ dealingsAmong hs' = [] ∧ Concluded hs' e := by
  -- Either the command cannot be spawned, or its process is waited for.
  have hreply : ∀ {c c' : Bool} {hs : List Happening} {z : Ending Reply},
      (h.converse argv).Plays c hs c' z →
      ∃ hs', hs = .seen (.spawned argv) :: hs' ∧ dealingsAmong hs' = [] ∧
        ((∃ reason, z = .failed (.spawnRefused reason)) ∨ (∃ reply, z = .done reply) ∨
          z = .interrupted ∧ .cut ∈ hs') := by
    intro c c' hs z hz
    rcases Plays.of_bind hz with ⟨hs₁, c₁, play, hs₂, rfl, hlaunch, hwait⟩ | ⟨fault, rfl,
        hlaunch⟩ |
      ⟨rfl, hlaunch⟩
    · obtain ⟨rfl, -⟩ := plays_launch hlaunch
      obtain ⟨hnone, hend⟩ := plays_replyFrom hwait
      exact ⟨hs₂, rfl, hnone, .inr hend⟩
    · obtain ⟨rfl, ⟨_, hd⟩ | ⟨reason, hd⟩⟩ := plays_launch hlaunch
      · cases hd
      · cases hd
        exact ⟨[], rfl, rfl, .inl ⟨reason, rfl⟩⟩
    · obtain ⟨-, ⟨_, hd⟩ | ⟨_, hd⟩⟩ := plays_launch hlaunch <;> cases hd
  rcases Plays.of_bind hplays with ⟨hs₁, c₁, reply, hs₂, rfl, hconverse, hafter⟩ | ⟨fault, rfl,
      hconverse⟩ |
    ⟨rfl, hconverse⟩
  · obtain ⟨hs', rfl, hnone, -⟩ := hreply hconverse
    obtain ⟨rfl, hend⟩ := hf hafter
    rw [List.append_nil]
    exact ⟨hs', rfl, hnone, by simpa using hend.append hs'⟩
  · obtain ⟨hs', rfl, hnone, ⟨reason, hd⟩ | ⟨_, hd⟩ | ⟨hd, -⟩⟩ := hreply hconverse
    · cases hd
      exact ⟨hs', rfl, hnone, .unspawned _ reason⟩
    · cases hd
    · cases hd
  · obtain ⟨hs', rfl, hnone, ⟨_, hd⟩ | ⟨_, hd⟩ | ⟨-, hcut⟩⟩ := hreply hconverse
    · cases hd
    · cases hd
    · exact ⟨hs', rfl, hnone, .cut hcut⟩

/-- Reading bytes as a text, and going on from there. -/
theorem plays_textOfBytes {α : Type} {bytes : List UInt8} {f : List CodePoint → Activity Deed α}
    (hf : ∀ {cs c hs c' e}, (f cs).Plays c hs c' e → hs = [] ∧ Concluded [] e) {c c' : Bool}
    {hs : List Happening} {e : Ending α} (h : (textOfBytes bytes >>= f).Plays c hs c' e) :
    hs = [] ∧ Concluded [] e := by
  unfold textOfBytes at h
  split at h
  · exact hf h
  · obtain ⟨rfl, rfl, rfl⟩ := Plays.of_finish h
    exact ⟨rfl, .undecodable _ _⟩

namespace ContainerEngine

variable {g : ContainerEngine} {c c' : Bool} {hs : List Happening}

theorem plays_create {name image workdir : Text} {volumes : Bindings} {e : Ending Text}
    (h : (g.create name image volumes workdir).Plays c hs c' e) :
    ∃ hs', hs = .seen (.spawned (g.createCommand name image volumes workdir)) :: hs' ∧
      dealingsAmong hs' = [] ∧ Concluded hs' e := by
  refine plays_converse (fun hreply => ?_) h
  split at hreply
  · refine plays_textOfBytes (fun hread => ?_) hreply
    obtain ⟨rfl, rfl, rfl⟩ := Plays.of_finish hread
    exact ⟨rfl, .done _ _⟩
  · refine plays_textOfBytes (fun hread => ?_) hreply
    obtain ⟨rfl, rfl, rfl⟩ := Plays.of_finish hread
    exact ⟨rfl, .complained _ _ _⟩

theorem plays_start {id : Text} {e : Ending Unit} (h : (g.start id).Plays c hs c' e) :
    ∃ hs', hs = .seen (.spawned [g.command, "start", id]) :: hs' ∧ dealingsAmong hs' = [] ∧
      Concluded hs' e := by
  refine plays_converse (fun hreply => ?_) h
  split at hreply
  · obtain ⟨rfl, rfl, rfl⟩ := Plays.of_finish hreply
    exact ⟨rfl, .done _ _⟩
  · refine plays_textOfBytes (fun hread => ?_) hreply
    obtain ⟨rfl, rfl, rfl⟩ := Plays.of_finish hread
    exact ⟨rfl, .complained _ _ _⟩

/-- The command line that removes a container by force. -/
def removal (g : ContainerEngine) (id : Text) : List Text := [g.command, "rm", "--force", id]

theorem plays_remove {id : Text} {e : Ending Unit} (h : (g.remove id true).Plays c hs c' e) :
    ∃ hs', hs = .seen (.spawned (g.removal id)) :: hs' ∧ dealingsAmong hs' = [] ∧
    Concluded hs' e := by
  refine plays_converse (fun hreply => ?_) h
  split at hreply
  · obtain ⟨rfl, rfl, rfl⟩ := Plays.of_finish hreply
    exact ⟨rfl, .done _ _⟩
  · refine plays_textOfBytes (fun hread => ?_) hreply
    split at hread
    · obtain ⟨rfl, rfl, rfl⟩ := Plays.of_finish hread
      exact ⟨rfl, .done _ _⟩
    · obtain ⟨rfl, rfl, rfl⟩ := Plays.of_finish hread
      exact ⟨rfl, .complained _ _ _⟩

/-- Cleaning up attempts the removal, and gets done however that fails, unless it is
interrupted. -/
theorem plays_cleanUp {id : Text} {e : Ending Unit} (h : (g.cleanUp id).Plays c hs c' e) :
    ∃ hs', hs = .seen (.spawned (g.removal id)) :: hs' ∧ dealingsAmong hs' = [] ∧
      (e = .done () ∨ e = .interrupted ∧ .cut ∈ hs') := by
  obtain ⟨hs₁, c₁, z, hs₂, rfl, hremove, hafter⟩ := Plays.of_attempt h
  obtain ⟨hs', rfl, hnone, hend⟩ := plays_remove hremove
  cases z with
  | done u =>
    obtain ⟨rfl, rfl, rfl⟩ := Plays.of_finish hafter
    exact ⟨hs' ++ [], rfl, by rw [List.append_nil, hnone], .inl rfl⟩
  | failed fault =>
    cases hafter with
    | note hlog =>
      obtain ⟨rfl, rfl, rfl⟩ := Plays.of_finish hlog
      refine ⟨hs' ++ _, rfl, ?_, .inl rfl⟩
      rw [dealingsAmong_append, hnone]
      rfl
  | interrupted =>
    obtain ⟨rfl, rfl, rfl⟩ := Plays.of_finish hafter
    cases hend with
    | cut hcut =>
      exact ⟨hs' ++ [], rfl, by rw [List.append_nil, hnone], .inr ⟨rfl, by simpa using hcut⟩⟩

end ContainerEngine

/-! ## Units -/

namespace ContainerHost

variable {h : ContainerHost} {c c' : Bool} {hs : List Happening}

/-- The command line that creates the container of a job. -/
def creation (h : ContainerHost) (i : JobInstance) (name : Text) : List Text :=
  h.engine.createCommand name (h.imageFor i.platform)
    (Bindings.ofPairs [(h.workspace, containerWorkspace), (tempDirFor i.id, containerTempDir)])
    containerWorkspace

/-- The commands that were spawned to bring up the container of a job. -/
inductive Begun (h : ContainerHost) (i : JobInstance) (name : Text) : List Note → Prop
  | created : Begun h i name [.spawned (h.creation i name)]
  | started (id : Text) :
      Begun h i name [.spawned (h.creation i name), .spawned [h.engine.command, "start", id]]

/-- How acquiring a unit for a job can end, with all that is made, removed and spawned. -/
inductive Acquisition (h : ContainerHost) (i : JobInstance) :
    List Happening → Ending ExecutionUnit → Prop
  /-- The host does not stand in for the pool image: nothing is made. -/
  | refused {fault : Fault} (unfit : standsInFor h.poolImages i.platform.poolImage ≠ .ok true) :
      Acquisition h i [] (.failed fault)
  /-- The container is up. -/
  | acquired {hs : List Happening} {u : ExecutionUnit} {name id : Text}
      (dealings : dealingsAmong hs = [.made (tempDirFor i.id), .spawned (h.creation i name),
        .spawned [h.engine.command, "start", id]])
      (tempDir : u.tempDir = tempDirFor i.id) (container : u.containerId = some id) :
      Acquisition h i hs (.done u)
  /-- A command complained or was interrupted: what was made is discarded. -/
  | discarded {hs : List Happening} {e : Ending ExecutionUnit} {name : Text}
    {begun : List Note}
      (began : h.Begun i name begun)
      (ending : e = .interrupted ∨
        ∃ reason, e = .failed (.unprovisionable (h.imageFor i.platform) i.id reason))
      (dealings : dealingsAmong hs = .made (tempDirFor i.id) :: begun ++
        [.spawned (h.engine.removal name), .removed (tempDirFor i.id)]) : Acquisition h i hs e
  /-- Discarding was itself interrupted, while the container was being removed: the directory
  stays. -/
  | disturbed {before after : List Happening} {name : Text} {begun : List Note}
      (began : h.Begun i name begun)
      (early : dealingsAmong before = .made (tempDirFor i.id) :: begun)
      (late : dealingsAmong after = []) (cut : .cut ∈ after) :
      Acquisition h i (before ++ .seen (.spawned (h.engine.removal name)) :: after) .interrupted
  /-- A command could not be spawned, or what it wrote is no text: everything stays. -/
  | leaked {hs : List Happening} {fault : Fault} {name : Text} {begun : List Note}
      (began : h.Begun i name begun)
      (cause : (∃ reason, fault = .spawnRefused reason) ∨ ∃ part, fault = .undecodable part)
      (dealings : dealingsAmong hs = .made (tempDirFor i.id) :: begun) :
      Acquisition h i hs (.failed fault)

/-- Bringing up a container spawns the commands for that. -/
theorem plays_bringUp {i : JobInstance} {name : Text} {e : Ending Text}
    (hplays : (h.bringUp name (h.imageFor i.platform) (tempDirFor i.id)).Plays c hs c' e) :
    (∃ begun, h.Begun i name begun ∧ dealingsAmong hs = begun) ∧ Concluded hs e ∧
      ∀ id, e = .done id → dealingsAmong hs =
        [.spawned (h.creation i name), .spawned [h.engine.command, "start", id]] := by
  have hcreated : ∀ {z : Ending Text} {hs : List Happening} {c c' : Bool},
      (h.engine.create name
      (h.imageFor i.platform)
      (Bindings.ofPairs [(h.workspace, containerWorkspace), (tempDirFor i.id, containerTempDir)])
      containerWorkspace).Plays c hs c' z →
      dealingsAmong hs = [.spawned (h.creation i name)] ∧ Concluded hs z := by
    intro z hs c c' hz
    obtain ⟨hs', rfl, hnone, hend⟩ := ContainerEngine.plays_create hz
    refine ⟨?_, hend.append [_]⟩
    rw [dealingsAmong_seen, hnone]
    rfl
  -- A container that could not be started exists all the same; one that could not be created
  -- may.
  rcases Plays.of_bind hplays with ⟨hs₁, c₁, id, hs₂, rfl, hcreate, hstart⟩ | ⟨fault, rfl,
      hcreate⟩ |
    ⟨rfl, hcreate⟩
  · obtain ⟨hfirst, -⟩ := hcreated hcreate
    have hstarted : ∀ {z : Ending Unit} {hs : List Happening} {c c' : Bool},
        (h.engine.start id).Plays c hs c' z →
        dealingsAmong (hs₁ ++ hs) =
          [.spawned (h.creation i name), .spawned [h.engine.command, "start", id]] ∧
          Concluded (hs₁ ++ hs) z := by
      intro z hs c c' hz
      obtain ⟨hs', rfl, hnone, hend⟩ := ContainerEngine.plays_start hz
      refine ⟨?_, (hend.append [_]).append hs₁⟩
      rw [dealingsAmong_append, hfirst, dealingsAmong_seen, hnone]
      rfl
    rcases Plays.of_bind hstart with ⟨hs₃, c₂, u, hs₄, rfl, hgo, hdone⟩ | ⟨fault, rfl, hgo⟩
      | ⟨rfl, hgo⟩
    · obtain ⟨rfl, rfl, rfl⟩ := Plays.of_finish hdone
      obtain ⟨hall, -⟩ := hstarted hgo
      rw [List.append_nil]
      refine ⟨⟨_, .started id, hall⟩, .done _ _, fun id' hid => ?_⟩
      cases hid
      exact hall
    · obtain ⟨hall, hend⟩ := hstarted hgo
      exact ⟨⟨_, .started id, hall⟩, hend.failed, fun id' hid => by cases hid⟩
    · obtain ⟨hall, hend⟩ := hstarted hgo
      exact ⟨⟨_, .started id, hall⟩, hend.interrupted, fun id' hid => by cases hid⟩
  · obtain ⟨hall, hend⟩ := hcreated hcreate
    exact ⟨⟨_, .created, hall⟩, hend, fun id' hid => by cases hid⟩
  · obtain ⟨hall, hend⟩ := hcreated hcreate
    exact ⟨⟨_, .created, hall⟩, hend, fun id' hid => by cases hid⟩

/-- Discarding attempts to remove the container, and then removes the directory unless it is
interrupted. -/
theorem plays_discard {α : Type} {name tempDir : Text} {z : Ending α} {e : Ending α}
    (hplays : (h.discard name tempDir >>= fun _ => Activity.finish z).Plays c hs c' e) :
    ∃ hs', hs = .seen (.spawned (h.engine.removal name)) :: hs' ∧
      (e = z ∧ dealingsAmong hs' = [.removed tempDir] ∨
        e = .interrupted ∧ dealingsAmong hs' = [] ∧ .cut ∈ hs') := by
  obtain ⟨hs₁, c₁, z₁, hs₂, rfl, hdiscard, hafter⟩ := Plays.of_andThen hplays
  obtain ⟨hs₃, c₃, z₃, hs₄, rfl, hclean, hremove⟩ := Plays.of_andThen hdiscard
  obtain ⟨hs', rfl, hnone, rfl | ⟨rfl, hcut⟩⟩ := ContainerEngine.plays_cleanUp hclean
  · cases hremove with
    | note hdone =>
      obtain ⟨rfl, rfl, rfl⟩ := Plays.of_finish hdone
      obtain ⟨rfl, rfl, rfl⟩ := Plays.of_finish hafter
      refine ⟨hs' ++ [.seen (.removed tempDir)], by simp [NoteKind.toNote, Deed.toNote],
        .inl ⟨rfl, ?_⟩⟩
      rw [dealingsAmong_append, hnone]
      rfl
  · obtain ⟨rfl, rfl, rfl⟩ := Plays.of_finish hremove
    obtain ⟨rfl, rfl, rfl⟩ := Plays.of_finish hafter
    exact ⟨hs', by simp, .inr ⟨rfl, hnone, hcut⟩⟩

/-- What was begun is discarded, or that is interrupted. -/
theorem acquisition_of_discard {i : JobInstance} {name : Text} {begun : List Note}
    {hs₁ hs₂ : List Happening} {z e : Ending ExecutionUnit} (began : h.Begun i name begun)
    (hbegun : dealingsAmong hs₁ = begun)
    (hz : z = .interrupted ∨
      ∃ reason, z = .failed (.unprovisionable (h.imageFor i.platform) i.id reason))
    (hplays : (h.discard name (tempDirFor i.id) >>= fun _ => Activity.finish z).Plays c
        hs₂ c' e) :
    h.Acquisition i (.seen (.made (tempDirFor i.id)) :: (hs₁ ++ hs₂)) e := by
  have hmade : dealingsAmong (.seen (.made (tempDirFor i.id)) :: hs₁) =
      .made (tempDirFor i.id) :: begun := by
    rw [dealingsAmong_seen, hbegun]
    rfl
  rw [← List.cons_append]
  obtain ⟨hs', rfl, ⟨rfl, hgone⟩ | ⟨rfl, hnone, hcut⟩⟩ := plays_discard hplays
  · refine .discarded began hz ?_
    rw [dealingsAmong_append, hmade, dealingsAmong_seen, hgone]
    rfl
  · exact .disturbed began hmade hnone hcut

/-- **Acquiring a unit ends in one of five ways**, whatever the commands do and whatever is
interrupted. -/
theorem acquisition_of_plays {i : JobInstance} {e : Ending ExecutionUnit}
    (hplays : (h.acquire i).Plays c hs c' e) : h.Acquisition i hs e := by
  unfold acquire at hplays
  split at hplays
  · next fault hfault =>
    obtain ⟨rfl, rfl, rfl⟩ := Plays.of_finish hplays
    exact .refused (by rw [hfault]; intro hd; cases hd)
  · next hfalse =>
    obtain ⟨rfl, rfl, rfl⟩ := Plays.of_finish hplays
    exact .refused (by rw [hfalse]; intro hd; cases hd)
  · obtain ⟨hs₀, rfl, hname⟩ := Plays.of_tell hplays
    cases hname with
    | draw n hattempt =>
      obtain ⟨hs₁, c₁, z, hs₂, rfl, hup, hafter⟩ := Plays.of_attempt hattempt
      obtain ⟨⟨begun, began, hbegun⟩, hend, hid⟩ := plays_bringUp hup
      have hmade : dealingsAmong (.seen (.made (tempDirFor i.id)) :: (hs₁ ++ hs₂)) =
          .made (tempDirFor i.id) :: (begun ++ dealingsAmong hs₂) := by
        rw [dealingsAmong_seen, dealingsAmong_append, hbegun]
        rfl
      -- Of the ways to fail only a complaint and an interruption are followed by a discard; the
      -- others leak.
      cases hend with
      | done id =>
        obtain ⟨hs₃, rfl, hdone⟩ := Plays.of_tell hafter
        obtain ⟨rfl, rfl, rfl⟩ := Plays.of_finish hdone
        rw [hid id rfl] at hbegun
        subst hbegun
        exact .acquired hmade rfl rfl
      | complained action complaint =>
        exact acquisition_of_discard began hbegun (.inr ⟨_, rfl⟩) hafter
      | unspawned reason =>
        obtain ⟨rfl, rfl, rfl⟩ := Plays.of_finish hafter
        refine .leaked began (.inl ⟨reason, rfl⟩) (hmade.trans ?_)
        rw [dealingsAmong_nil, List.append_nil]
      | undecodable part =>
        obtain ⟨rfl, rfl, rfl⟩ := Plays.of_finish hafter
        refine .leaked began (.inr ⟨part, rfl⟩) (hmade.trans ?_)
        rw [dealingsAmong_nil, List.append_nil]
      | cut hcut => exact acquisition_of_discard began hbegun (.inl rfl) hafter

/-- What a release removes of a unit: the container, if it is known by an id, and the
directory. -/
def leavings (h : ContainerHost) (u : ExecutionUnit) : List Note :=
  match u.containerId with
  | some id => if id = "" then [.removed u.tempDir] else
    [.spawned (h.engine.removal id), .removed u.tempDir]
  | none => [.removed u.tempDir]

/-- A release that is not interrupted removes what there is, however the removal of the container
fails. -/
theorem plays_release {u : ExecutionUnit} {e : Ending Unit}
    (hplays : (h.release u).Plays c hs c' e)
    (huncut : .cut ∉ hs) : e = .done () ∧ dealingsAmong hs = h.leavings u := by
  have hremoved : ∀ {hs : List Happening} {c : Bool},
      (tell (.removed u.tempDir) : Activity Deed Unit).Plays c hs c' e →
      hs = [.seen (.removed u.tempDir)] ∧ e = .done () := by
    intro hs c hremove
    cases hremove with
    | note hdone =>
      obtain ⟨rfl, rfl, rfl⟩ := Plays.of_finish hdone
      exact ⟨rfl, rfl⟩
  unfold release at hplays
  unfold leavings
  cases hid : u.containerId with
  | none =>
    rw [hid] at hplays
    obtain ⟨rfl, rfl⟩ := hremoved hplays
    exact ⟨rfl, rfl⟩
  | some id =>
    rw [hid] at hplays
    dsimp only at hplays ⊢
    by_cases hempty : id = ""
    · rw [if_pos hempty] at hplays ⊢
      obtain ⟨rfl, rfl⟩ := hremoved hplays
      exact ⟨rfl, rfl⟩
    · rw [if_neg hempty] at hplays ⊢
      obtain ⟨hs₁, c₁, z, hs₂, rfl, hclean, hafter⟩ := Plays.of_andThen hplays
      obtain ⟨hs', rfl, hnone, rfl | ⟨rfl, hcut⟩⟩ := ContainerEngine.plays_cleanUp hclean
      · obtain ⟨rfl, rfl⟩ := hremoved hafter
        rw [dealingsAmong_append, dealingsAmong_seen, hnone]
        exact ⟨rfl, rfl⟩
      · exact absurd (List.mem_append_left _ (List.mem_cons_of_mem _ hcut)) huncut

/-- **What acquiring and releasing a unit leave behind.** Whatever the commands do, and whatever
is interrupted, acquiring ends in one of five ways; and if there is a unit, a release that is not
interrupted removes its container and its directory, however the removal fails. -/
theorem returns_resources (h : ContainerHost) (i : JobInstance) {c c' : Bool}
    {hs : List Happening}
    {e : Ending ExecutionUnit} (hplays : (h.acquire i).Plays c hs c' e) :
    h.Acquisition i hs e ∧ ∀ u, e = .done u →
    ∀ {c c' : Bool} {hs' : List Happening} {e' : Ending Unit},
      (h.release u).Plays c hs' c' e' → .cut ∉ hs' → e' = .done () ∧ dealingsAmong hs' =
      h.leavings u :=
  ⟨acquisition_of_plays hplays, fun _ _ _ _ _ _ hrelease huncut => plays_release hrelease huncut⟩

/-- A host whose container engine behaves as planned. -/
def rehearsal (p : ContainerPlan) : ContainerHost where
  engine := ⟨rehearsalHost p, defaultNamePrefix, defaultEngineCommand⟩
  workspace := "/work"
  defaultImage := defaultContainerImage
  poolImages := none

/-- A job that asks for no image. -/
def plainJob : JobInstance := ⟨"a", "a", none, .ofInt 60, ⟨.text "", none⟩, [], []⟩

/-- The container cannot be started: what was made is discarded. -/
theorem returns_resources_unstarted :
    ∃ hs c' e, ((rehearsal { ContainerPlan.smooth with startComplaint := some "no" }).acquire
        plainJob).Plays
        false hs c' e ∧
      (rehearsal { ContainerPlan.smooth with startComplaint := some "no" }).Acquisition
        plainJob hs e ∧
      .removed (tempDirFor "a") ∈ seenAmong hs := by
  obtain ⟨hs, hplays, hseen⟩ := exists_plays_run
    ((rehearsal { ContainerPlan.smooth with startComplaint := some "no" }).acquire plainJob)
      .start
  refine ⟨hs, _, _, hplays, (returns_resources _ _ hplays).1, ?_⟩
  rw [hseen]
  decide +kernel

/-- **The container engine is not there**: no command can be spawned, no unit is acquired, and
the directory that was made for it stays. Nothing attempts a removal. -/
theorem leaked_directory :
    ∃ hs c' e, ((rehearsal { ContainerPlan.smooth with missing := true }).acquire plainJob).Plays
        false hs c' e ∧
      (∀ u, e ≠ .done u) ∧ .made (tempDirFor "a") ∈ seenAmong hs ∧
        .removed (tempDirFor "a") ∉ seenAmong hs ∧
      ∀ name, .spawned ((rehearsal ContainerPlan.smooth).engine.removal name) ∉ seenAmong
        hs := by
  obtain ⟨hs, hplays, hseen⟩ := exists_plays_run
    ((rehearsal { ContainerPlan.smooth with missing := true }).acquire plainJob) .start
  have hdealings : dealingsAmong hs = [.made (tempDirFor "a"), .spawned
      ((rehearsal ContainerPlan.smooth).creation plainJob (defaultNamePrefix ++
        freshName 1))] := by
    rw [dealingsAmong, hseen]
    decide +kernel
  refine ⟨hs, _, _, hplays, fun u hu => ?_, ?_, fun hremoved => ?_, fun name hremoval => ?_⟩
  · rw [hu] at hplays
    -- A unit takes one more command.
    cases acquisition_of_plays hplays with
    | acquired dealings => cases hdealings.symm.trans dealings
    | discarded began ending => simp at ending
  · rw [← mem_dealingsAmong rfl, hdealings]
    exact List.mem_cons_self
  · rw [← mem_dealingsAmong rfl, hdealings] at hremoved
    simp at hremoved
  · rw [← mem_dealingsAmong rfl, hdealings] at hremoval
    simp [ContainerEngine.removal, creation, ContainerEngine.createCommand] at hremoval

end ContainerHost

end Conveyor
