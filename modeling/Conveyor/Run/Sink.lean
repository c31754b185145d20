import Conveyor.Schedule.Reception

/-!
# Sinks

A run may report to a sink: that it starts, each job as it ends, and that it is over. A sink
takes its time, and it may fail, which the run survives.

- `SinkCall`: what a sink is told.
- `Sink`: what it does when it is told something.
- `Notebook`: what a sink remembers, and what it was told.
- `Reception.kept`: a sink leaves alone what is written of it.
- `offer`: tell a sink something, if there is one.
-/

namespace Conveyor

/-- What a sink is told. -/
inductive SinkCall where
  /-- A run starts. -/
  | createRun (runId branch : Text) (startedAt : Stamp)
  /-- A job of a run has ended. -/
  | recordJob (runId : Text) (result : JobResult)
  /-- A run is over. -/
  | completeRun (result : RunResult)
  deriving DecidableEq, Repr

/-- What a sink does when it is told something. It remembers something of type `σ`. -/
abbrev Sink (σ : Type) := SinkCall → Reception σ

/-- What a sink remembers, and what it was told during a run, and when. -/
structure Notebook (σ : Type) where
  memory : σ
  told : List (Nat × SinkCall)

variable {σ : Type}

/-- A reception of which it is written what it was told. -/
def Reception.kept : Reception σ → Reception (Notebook σ)
  | finish ending => finish ending
  | note d next => note d next.kept
  | wait span next => wait span fun cut => (next cut).kept
  | clock next => clock fun t => (next t).kept
  | poll next => poll fun c => (next c).kept
  | look next => look fun n => (next n.memory).kept
  | keep m next => look fun n => keep { n with memory := m } next.kept

/-- A sink is told something. -/
def Sink.tell (sink : Sink σ) (call : SinkCall) : Reception (Notebook σ) :=
  .clock fun t => .look fun n => .keep { n with told := n.told ++ [(t, call)] } (sink call).kept

/-- Tell a sink something, if there is one. -/
def offer (sink : Option (Sink σ)) (call : SinkCall) : Reception (Notebook σ) :=
  match sink with
  | some s => s.tell call
  | none => .finish (.done ())

end Conveyor
