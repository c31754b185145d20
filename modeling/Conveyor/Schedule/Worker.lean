import Conveyor.Schedule.Body
import Conveyor.Schedule.Floor

/-!
# Workers

A worker takes a job, waits for its body, for its timeout and for the cancellation of the run,
whichever comes first, tells whoever wants to know of the result, and then takes the next job. A
body that is overtaken is interrupted and given the grace period and one second more to finish;
after that it is abandoned, and the worker goes on without it.

- `Engine.afterWatching`, `Engine.afterPreempting`: a turn of a worker on its job.
- `Engine.conclude`: a job has its result.
- `Engine.tell`, `Engine.hear`: the receiver of results is told one, and has its turns.
- `Engine.takeJobs`: take the next job; when the run is canceled, those that are left are turned
  away.
- `Engine.workerTurn`: one turn of a worker.
-/

namespace Conveyor

/-- What a worker does after a turn on its job. -/
inductive Sequel where
  /-- It goes on waiting for it. -/
  | stay
  /-- The job is over with this status: it tells of the result, and takes the next job. -/
  | free (status : JobStatus)
  /-- It is stopped. -/
  | stop
  deriving DecidableEq, Repr

namespace Engine

variable {σ : Type}

/-- The result of a job at a time. -/
def resultAt (e : Engine) (i : JobInstance) (start : Option Nat) (time : Nat)
    (status : JobStatus)
    (recorded : List StepResult) : JobResult :=
  { jobId := i.id
    status := status
    steps := completeSteps i.steps recorded
    templateName := i.templateName
    variant := i.variant
    startedAt := start.map e.stampAt
    finishedAt := e.stampAt time }

/-! ### A worker and its job -/

/-- The result of a job whose worker is done with it. -/
def resultOf (e : Engine) (status : JobStatus) (d : Desk) : JobResult :=
  e.resultAt d.flight.job (some d.flight.takenAt) d.around.now status d.flight.steps

/-- A job has its result. -/
def conclude (e : Engine) (status : JobStatus) (d : Desk) : Desk :=
  (d.move (.ended status)).see (.completed (e.resultOf status d))

/-- Interrupt a body, unless it is over, and wait for it. -/
def preempt (e : Engine) (cause : Cause) (d : Desk) : Desk :=
  let d' := { d with post := .preempting cause }
  match d.flight.body with
  | .ended _ => (d'.setTimer e.patience .patience).push (.bodyOver .preempting)
  | _ => d'.cutBody.setTimer e.patience .patience

/-- What the log says when a job takes too long. -/
def timeoutMessage (i : JobInstance) : Text :=
  "Job " ++ i.id ++ " exceeded its timeout of " ++ i.timeoutSeconds.text ++ "s"

/-- What the log says when a job is overtaken by the cancellation of the run. -/
def cancelMessage (i : JobInstance) : Text := "Job " ++ i.id ++ " canceled while in flight"

/-- What the log says when a body breaks. -/
def breakdownMessage (i : JobInstance) (fault : Fault) : Text :=
  "Job " ++ i.id ++ " failed unexpectedly: " ++ fault.message

/-- A worker goes on that watched a job. -/
def afterWatching (e : Engine) (cut : Bool) (d : Desk) : Desk × Sequel :=
  let i := d.flight.job
  let d' := (d.edit fun x => { x with watch := .dismissed }).dropTimer .timeout
  if cut then (e.preempt .stopped d', .stay)
  else
    match d.flight.body with
    | .ended (.done status) => (e.conclude status d', .free status)
    | .ended (.failed fault) =>
      if fault.isCancellation then (e.preempt .canceled (d'.log .warning fault.message), .stay)
      else (e.preempt .failed (d'.log .error (breakdownMessage i fault)), .stay)
    | .ended .interrupted => (e.preempt .stopped d', .stay)
    | _ =>
      if d.flight.watch = .ended then
        (e.preempt .canceled (d'.log .warning (cancelMessage i)), .stay)
      else (e.preempt .timedOut (d'.log .warning (timeoutMessage i)), .stay)

/-- What the log says of an interrupted body: that it failed meanwhile, or that it is
abandoned. -/
def preemptionMessage : Body → Option Text
  | .ended (.failed fault) =>
    if fault.isCancellation then none
    else some ("Job body failed during preemption: " ++ fault.message)
  | .ended _ => none
  | _ => some "Job teardown did not finish in time; abandoning it"

/-- A worker goes on that waited for an interrupted body. -/
def afterPreempting (e : Engine) (cause : Cause) (cut : Bool) (d : Desk) : Desk × Sequel :=
  let d' := d.dropTimer .patience
  if cut then (d', .stop)
  else
    let told :=
      match preemptionMessage d.flight.body with
      | some message => d'.log .error message
      | none => d'
    match cause.status? with
    | some status => (e.conclude status told, .free status)
    | none => (told, .stop)

/-! ### A worker and the receiver of results -/

/-- A worker is done. -/
def endWorker (w : Nat) (stopped : Bool) (fl : Floor σ) : Floor σ :=
  (fl.modifyWorker w fun x => { x with duty := .done stopped }).push (.workerDone w)

/-- What the log says when the receiver of a result fails. -/
def receiverMessage (jobId : Text) (fault : Fault) : Text :=
  "Completion callback failed for job " ++ jobId ++ ": " ++ fault.message

/-- The receiver that a worker tells of a result waits: for a while, or only for its next
turn. -/
def attend (w : Nat) (jobId : Text) (span : Nat) (next : Bool → Reception σ) (fl : Floor σ) :
    Floor σ :=
  let fl' := fl.modifyWorker w fun x => { x with duty := .telling jobId (fl.now + span) next }
  if span = 0 then fl'.callTeller w else fl'.setTimer (.finite span) (.receiver w)

/-- What a turn of the receiver of a result leads to, and whether the worker goes on. A receiver
that fails is done as well. -/
def hear (w : Nat) (jobId : Text) (s : Reception.Stretch σ) (fl : Floor σ) : Floor σ × Bool :=
  let heard : Floor σ := { fl.see none s.notes with memory := s.memory }
  match s.rest with
  | .ended (.done ()) => (heard.see none [.answered w jobId], true)
  | .ended (.failed fault) =>
    (heard.see none [.log .error (receiverMessage jobId fault), .answered w jobId], true)
  | .ended .interrupted => (endWorker w true heard, false)
  | .waiting span next => (attend w jobId span next heard, false)

/-- The receiver is told a result. -/
def tell (w : Nat) (r : JobResult) (fl : Floor σ) : Floor σ × Bool :=
  hear w r.jobId ((fl.receiver r).proceed fl.around fl.memory) fl

/-! ### A worker and the queue -/

/-- The result of a job that is turned away at a time. -/
def refusedAt (e : Engine) (i : JobInstance) (time : Nat) : JobResult :=
  e.resultAt i none time .canceled []

/-- A job is turned away. -/
def turnAway (e : Engine) (i : JobInstance) (fl : Floor σ) : Floor σ :=
  fl.see none [.turnedAway i.id, .completed (e.refusedAt i fl.now)]

/-- What the log says when a worker takes a job. -/
def pickUpMessage (w : Nat) (i : JobInstance) : Text :=
  "Slot " ++ Nat.repr w ++ " picked up job " ++ i.id

/-- A worker takes a job: its body and its watch are called, and its time begins to run. -/
def launch (w : Nat) (i : JobInstance) (fl : Floor σ) : Floor σ :=
  let f := fl.flights.length
  let fl' : Floor σ :=
    { fl.see (some f) [.log .debug (pickUpMessage w i)] with
      flights := fl.flights ++ [Flight.launch i w fl.now]
      workers := fl.workers.modify w fun x => { x with duty := .watching f } }
  ((fl'.push (.flight f .body)).push (.flight f .watch)).setTimer (.ofSeconds i.timeoutSeconds)
    (.flight f .timeout)

/-- A worker takes the next of some jobs. -/
def takeJobs (e : Engine) (w : Nat) : List JobInstance → Floor σ → Floor σ
  | [], fl => endWorker w false { fl with queue := [] }
  | i :: rest, fl =>
    if fl.around.canceled then
      let told := tell w (e.refusedAt i fl.now) (e.turnAway i { fl with queue := rest })
      if told.2 then e.takeJobs w rest told.1 else told.1
    else launch w i { fl with queue := rest }

/-- A worker goes on if the receiver of a result is done with it. -/
def resume (e : Engine) (w : Nat) (told : Floor σ × Bool) : Floor σ :=
  if told.2 then e.takeJobs w told.1.queue told.1 else told.1

/-- A worker goes on after a turn at a desk. -/
def carryOn (e : Engine) (w : Nat) (d : Desk) (fl : Floor σ) : Sequel → Floor σ
  | .stay => fl
  | .free status => e.resume w (tell w (e.resultOf status d) fl)
  | .stop => endWorker w true fl

/-- A turn of a worker on its job, after which it goes on. -/
def workOn (e : Engine) (w f : Nat) (turn : Desk → Desk × Sequel) (fl : Floor σ) : Floor σ :=
  match fl.desk? f with
  | some d => e.carryOn w (turn d).1 (fl.put f (turn d).1) (turn d).2
  | none => fl

/-- One turn of a worker. -/
def workerTurn (e : Engine) (w : Nat) (fl : Floor σ) : Floor σ :=
  match fl.workers[w]? with
  | none => fl
  | some worker =>
    let cut : Bool := worker.call = .cut
    let fl' := fl.modifyWorker w fun x => { x with call := .idle }
    match worker.duty with
    | .fresh => if cut then endWorker w true fl' else e.takeJobs w fl'.queue fl'
    | .watching f => e.workOn w f (e.afterWatching cut) fl'
    | .preempting f cause => e.workOn w f (e.afterPreempting cause cut) fl'
    | .telling jobId _ next =>
      e.resume w (hear w jobId ((next cut).proceed fl'.around fl'.memory) fl')
    | .done _ => fl'

end Engine

end Conveyor
