import Conveyor.Activity.Moment
import Conveyor.Calendar.Iso
import Conveyor.Command.History
import Conveyor.Command.Run
import Conveyor.Container.Rehearsal
import Conveyor.Document.Load
import Conveyor.Job.Environment
import Conveyor.Job.Instance
import Conveyor.Main
import Conveyor.Number.Reading
import Conveyor.Proofs.Run.Verdict
import Conveyor.Record.Printed
import Conveyor.Run.Coordinator
import Conveyor.Script.Rehearsal
import Conveyor.Store.Basic
import Conveyor.Text.Uppercase
import Conveyor.Text.Utf8
import Conveyor.Unit.Scripted
import Conveyor.Proofs.Schedule.Alike
import Conveyor.Proofs.Activity.Keeps
import Conveyor.Proofs.Schedule.Custody
import Conveyor.Proofs.Schedule.Greedy
import Conveyor.Proofs.Schedule.Ownership
import Conveyor.Proofs.Schedule.Cancellation
import Conveyor.Proofs.Schedule.Fairness
import Conveyor.Proofs.Run.Cancellation
import Conveyor.Proofs.Run.Timekeeping
import Conveyor.Proofs.Calendar.Reading
import Conveyor.Proofs.Calendar.Days
import Conveyor.Proofs.Run.Recording
import Conveyor.Proofs.Run.Telling
import Conveyor.Proofs.Schedule.Receipts
import Conveyor.Proofs.Store.Refusal
import Conveyor.Proofs.Schedule.Isolation
import Conveyor.Proofs.Schedule.Teardown
import Conveyor.Proofs.Command.Limits
import Conveyor.Proofs.Run.Environment
import Conveyor.Proofs.Step.FailFast
import Conveyor.Proofs.Container.Discarding
import Conveyor.Proofs.Store.Interleaving
import Conveyor.Proofs.Schedule.Candor
import Conveyor.Proofs.Process.Streaming
import Conveyor.Proofs.Trigger.Glob
import Conveyor.Proofs.Trigger.Policy
import Conveyor.Proofs.Job.Expandable
import Conveyor.Proofs.Job.Placeholder
import Conveyor.Proofs.Store.Listing
import Conveyor.Proofs.Record.Codec
import Conveyor.Proofs.Schedule.Transitions
