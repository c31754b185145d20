import Conveyor.Bindings
import Conveyor.Log
import Conveyor.Result

/-!
# Notes

What the parties of a run let the outside see. Not everybody can let everything be seen: scripts
and provisioners show what they do, the steps of a job also show their results, and only the
engine itself tells of jobs.

- `JobState`: the states of a job, of which the results are the last.
- `Note`: one thing to be seen.
- `Deed`, `StepNote`: the notes of parties outside the engine, and those of the steps of a job.
- `NoteKind`: kinds of notes, among them the deeds.
-/

namespace Conveyor

/-- The states of a job. -/
inductive JobState where
  | queued
  | provisioning
  | running
  | ended (status : JobStatus)
  deriving DecidableEq, Repr

/-- The word for a state. -/
def JobState.word : JobState → Text
  | queued => "queued"
  | provisioning => "provisioning"
  | running => "running"
  | ended status => status.word

/-- One thing to be seen. -/
inductive Note where
  /-- A message for the log. -/
  | log (level : LogLevel) (message : Text)
  /-- A job went from one state to another. -/
  | moved (jobId : Text) (source target : JobState)
  /-- A job was turned away because the run was already canceled. -/
  | turnedAway (jobId : Text)
  /-- A script wrote a text. -/
  | wrote (text : List CodePoint)
  /-- A step has a result. -/
  | recorded (result : StepResult)
  /-- The executor starts on a script. -/
  | began (script : Text) (env : Bindings)
  /-- The executor is done with the script that it started on last. -/
  | ended
  /-- A unit was acquired. -/
  | acquired
  /-- The release of the unit starts. -/
  | releasing
  /-- The unit was released. -/
  | released
  /-- A process was spawned, or was to be spawned. -/
  | spawned (argv : List Text)
  /-- The process was killed, with its whole group or alone. -/
  | killed (group : Bool)
  /-- A temporary directory was made. -/
  | made (path : Text)
  /-- A directory was removed. -/
  | removed (path : Text)
  /-- A job has a result. -/
  | completed (result : JobResult)
  /-- Whoever was told the result of a job by a worker is done with it. -/
  | answered (worker : Nat) (jobId : Text)
  /-- The run was canceled. -/
  | canceled
  deriving DecidableEq, Repr

/-- What a party outside the engine lets be seen. -/
inductive Deed where
  | log (level : LogLevel) (message : Text)
  | wrote (text : List CodePoint)
  | spawned (argv : List Text)
  | killed (group : Bool)
  | made (path : Text)
  | removed (path : Text)
  deriving DecidableEq, Repr

/-- What the steps of a job let be seen. -/
inductive StepNote where
  | deed (d : Deed)
  | recorded (result : StepResult)
  | began (script : Text) (env : Bindings)
  | ended
  deriving DecidableEq, Repr

/-- A deed as a note. -/
def Deed.toNote : Deed → Note
  | log level message => .log level message
  | wrote text => .wrote text
  | spawned argv => .spawned argv
  | killed group => .killed group
  | made path => .made path
  | removed path => .removed path

/-- A note of a step as a note. -/
def StepNote.toNote : StepNote → Note
  | deed d => d.toNote
  | recorded result => .recorded result
  | began script env => .began script env
  | ended => .ended

/-- Only the engine itself tells of this: that the run was canceled, or that a job has a
result. -/
def Note.isVerdict : Note → Bool
  | .canceled | .completed _ => true
  | _ => false

/-- A kind of notes: it has all deeds, and all of it can be seen. Nobody can make believe that
the run was canceled, or that a job has a result. -/
class NoteKind (ν : Type) where
  ofDeed : Deed → ν
  toNote : ν → Note
  isVerdict_toNote (n : ν) : (toNote n).isVerdict = false

theorem Deed.isVerdict_toNote (d : Deed) : d.toNote.isVerdict = false := by
  cases d <;> rfl

theorem StepNote.isVerdict_toNote (n : StepNote) : n.toNote.isVerdict = false := by
  cases n with
  | deed d => exact d.isVerdict_toNote
  | recorded result => rfl
  | began script env => rfl
  | ended => rfl

instance : NoteKind Deed := ⟨id, Deed.toNote, Deed.isVerdict_toNote⟩

instance : NoteKind StepNote := ⟨.deed, StepNote.toNote, StepNote.isVerdict_toNote⟩

end Conveyor
