import Conveyor.Bindings
import Conveyor.Command.Disk
import Conveyor.Command.HistoryRequest
import Conveyor.Record.Json
import Conveyor.Record.Printed
import Conveyor.Text.Styling

/-!
# Inspecting the run history

- `shownTime`, `shownStatus`: times and statuses for people.
- `RunRecord.row`, `RunRecord.page`: a run in a listing, and by itself.
- `confirm`: ask until there is an answer.
- `Disk.history`: carry a request out.
-/

namespace Conveyor

/-! ## Times and statuses -/

/-- A time for people. -/
def shownTime : Option Stamp → Text
  | none => "N/A"
  | some t =>
    Nat.repr t.date.year ++ "-" ++ Text.zeroPadded 2 t.date.month ++ "-" ++
      Text.zeroPadded 2 t.date.day ++ " " ++ Text.zeroPadded 2 t.hour ++ ":" ++
      Text.zeroPadded 2 t.minute ++ ":" ++ Text.zeroPadded 2 t.second

/-- The mark of a status. -/
def statusMark (status : Text) : Text :=
  match status.string? with
  | some "success" => "✓"
  | some "failed" => "✗"
  | some "timed_out" => "⏱"
  | some "canceled" => "⊘"
  | some "skipped" => "⏭"
  | some "interrupted" => "!"
  | _ => "-"

/-- A status for people. -/
def shownStatus (status : Text) : Text := statusMark status ++ " " ++ status

/-! ## Listings and pages -/

/-- A line of output, which is not for a terminal. -/
def outputLine (s : Text) : Text := Text.dropStyling s ++ "\n"

/-- The branch of a run, if it has one. -/
def RunRecord.shownBranch (r : RunRecord) : Text :=
  match r.branch with
  | .null => "-"
  | .text "" => "-"
  | v => v.plainText

/-- A run in a listing. -/
def RunRecord.row (r : RunRecord) : Text :=
  outputLine (Text.padRight 38 r.runId.plainText ++ " " ++
    Text.padRight 14 (shownStatus r.status.plainText) ++ " " ++
    Text.padRight 20 r.shownBranch ++ " " ++
    Text.padRight 20 (shownTime r.startedAt) ++ " " ++
    Text.padRight 5 (Nat.repr r.jobs.length))

/-- What stands above a listing. -/
def listingHead : Text :=
  outputLine (Text.padRight 38 "RUN ID" ++ " " ++ Text.padRight 14 "STATUS" ++ " " ++
    Text.padRight 20 "BRANCH" ++ " " ++ Text.padRight 20 "STARTED" ++ " " ++
    Text.padRight 5 "JOBS") ++
  outputLine (Text.ofList (List.replicate 100 '-'))

/-- A listing of runs. -/
def listing (rs : List RunRecord) : Text :=
  if rs.isEmpty then outputLine "No runs found."
  else listingHead ++ Text.join (rs.map RunRecord.row)

/-- A text without the line feeds at its end. -/
def dropLineFeeds (s : Text) : Text :=
  Text.ofList (s.toList.reverse.dropWhile (· = CodePoint.char '\n')).reverse

/-- The output of a step. -/
def StepRecord.shownOutput (s : StepRecord) : Text :=
  let output := s.output.plainText
  if output = "" then ""
  else
    (if s.truncated then outputLine "      ... (output truncated)" else "") ++
      Text.join ((Text.lines (dropLineFeeds output)).map fun line =>
        outputLine ("      " ++ line))

/-- A step on the page of a run. -/
def StepRecord.lines (withOutput : Bool) (s : StepRecord) : Text :=
  outputLine ("    " ++ Text.padRight 14 (shownStatus s.status.plainText) ++ " exit=" ++
    Text.padRight 4 (printedExitCode s.exitCode) ++ " " ++
    Text.padLeft 7 s.durationMs.plainText ++ "ms  " ++ s.displayName.plainText) ++
  (if withOutput then s.shownOutput else "")

/-- A job on the page of a run. -/
def JobRecord.lines (withOutput : Bool) (j : JobRecord) : Text :=
  outputLine "" ++
  outputLine ("  " ++ j.jobId.plainText ++ "  " ++ shownStatus j.status.plainText) ++
  Text.join (j.steps.map (StepRecord.lines withOutput))

/-- The page of a run. -/
def RunRecord.page (withOutput : Bool) (r : RunRecord) : Text :=
  outputLine ("Run:      " ++ r.runId.plainText) ++
  outputLine ("Status:   " ++ shownStatus r.status.plainText) ++
  outputLine ("Branch:   " ++ r.shownBranch) ++
  outputLine ("Started:  " ++ shownTime r.startedAt) ++
  outputLine ("Finished: " ++ shownTime r.finishedAt) ++
  Text.join (r.jobs.map (JobRecord.lines withOutput))

/-! ## Asking back -/

/-- The lines of an input. A carriage return, a line feed, or both together end a line. `cur`
collects the current line in reverse. -/
def inputLinesFrom (cur : List CodePoint) : List CodePoint → List (List CodePoint)
  | [] => if cur.isEmpty then [] else [cur.reverse]
  | .char '\r' :: .char '\n' :: rest => cur.reverse :: inputLinesFrom [] rest
  | c :: rest =>
    if c = '\n' || c = '\r' then cur.reverse :: inputLinesFrom [] rest
    else inputLinesFrom (c :: cur) rest

/-- The lines of an input. -/
def inputLines (s : Text) : List Text := (inputLinesFrom [] s.toList).map Text.ofList

/-- The answer that a line gives to a question for yes or no. No answer is no. -/
def answerOf (line : Text) : Option Bool :=
  let word := Text.ofList ((Text.trim line.toList).map CodePoint.toLower)
  if word = "y" || word = "yes" then some true
  else if word = "n" || word = "no" || word = "" then some false
  else none

/-- What came of a question. -/
structure Confirmation where
  agreed : Bool
  /-- What was written before the answer was known. -/
  shown : Text
  /-- What is still to be written: a question to which no line is left shows up only after what
  is said about it. -/
  pending : Text
  deriving DecidableEq, Repr

/-- Ask until a line answers. -/
def confirm (question : Text) : List Text → Confirmation
  | [] => ⟨false, "", question⟩
  | line :: rest =>
    let asked := question ++ line ++ "\n"
    match answerOf line with
    | some agreed => ⟨agreed, asked, ""⟩
    | none =>
      let c := confirm question rest
      { c with shown := asked ++ outputLine "Error: invalid input" ++ c.shown }

/-! ## Carrying requests out -/

/-- Why a request about the history fails. -/
inductive HistoryFault where
  /-- The user has no home directory. -/
  | noHome
  | directory (fault : PathFault)
  | opening (fault : OpenFault)
  | statement (fault : StoreFault)
  deriving DecidableEq, Repr

/-- What is seen of a request. -/
structure HistoryReport where
  exitCode : Int
  output : Text
  /-- The fault that ended the command, if one did. -/
  fault : Option HistoryFault
  deriving DecidableEq, Repr

/-- A request that was carried out. -/
def HistoryReport.success (output : Text) : HistoryReport := ⟨exitSuccess, output, none⟩

/-- A request that was ended by a fault. -/
def HistoryReport.broken (output : Text) (fault : HistoryFault) : HistoryReport :=
  ⟨exitFailed, output, some fault⟩

/-- A request about a run that is not there. -/
def HistoryReport.notFound (output runId : Text) : HistoryReport :=
  ⟨exitFailed, output ++ outputLine ("Error: Run " ++ runId ++ " not found"), none⟩

/-- What is said when the user has no home directory. -/
def noHomeMessage : Text := "Could not determine home directory."

/-- The home directory of a user without one in the environment. -/
def fallbackHome : Text := "/root"

/-- A text without the slashes at its end. -/
def dropSlashes (s : Text) : Text :=
  Text.ofList (s.toList.reverse.dropWhile (· = CodePoint.char '/')).reverse

/-- The home directory. One that starts with a tilde is none. -/
def homeOf (environment : Bindings) : Except HistoryFault Path :=
  let home := dropSlashes ((environment.get? "HOME").getD fallbackHome)
  if home.toList.head? = some '~' then .error .noHome
  else .ok (Path.read (if home = "" then "/" else home))

/-- Where the run history is. The home directory must be known even where it is not needed. -/
def historyPath (environment : Bindings) : Except HistoryFault Text := do
  let home ← homeOf environment
  .ok ((environment.get? "PIPELINE_DB_PATH").getD (home.below [".pipeline", "runs.db"]).text)

/-- A JSON text as output. -/
def jsonOutput (v : Value) : Text := outputLine (v.json.toOption.getD "")

/-- The report on a listing. -/
def reportList (json : Bool) : Except StoreFault (List RunRecord) → HistoryReport
  | .error fault => .broken "" (.statement fault)
  | .ok rs =>
    .success (if json then jsonOutput (.list (rs.map RunRecord.summary)) else listing rs)

/-- The report on one run. -/
def reportInspect (runId : Text) (json output : Bool) :
    Except StoreFault (Option RunRecord) → HistoryReport
  | .error fault => .broken "" (.statement fault)
  | .ok none => .notFound "" runId
  | .ok (some r) => .success (if json then jsonOutput r.toValue else r.page output)

/-- The report on a deletion, after some output. -/
def reportDelete (shown runId : Text) : Except StoreFault Bool → HistoryReport
  | .error fault => .broken shown (.statement fault)
  | .ok false => .notFound shown runId
  | .ok true => .success (shown ++ outputLine ("✓ Run " ++ runId ++ " deleted"))

/-- Ask the store. `shown` is what was written so far. -/
def askStore (request : HistoryRequest) (shown : Text) (s : Store) : HistoryReport × Store :=
  match request with
  | .list limit json => (reportList json (s.listRuns limit), s)
  | .inspect runId json output => (reportInspect runId json output (s.getRun runId), s)
  | .delete runId _ =>
    let (answer, s') := Store.deleteRun runId s
    (reportDelete shown runId answer, s')

/-- Open the history at a path, creating the directory for it, and ask it. -/
def Disk.askHistoryAt (d : Disk) (path : Text) (request : HistoryRequest) (shown : Text) :
    HistoryReport × Disk :=
  match d.makeDirectories (Path.read path).parent with
  | .error fault => (.broken shown (.directory fault), d)
  | .ok d =>
    match d.openStore path with
    | .error fault => (.broken shown (.opening fault), d)
    | .ok store =>
      let (report, store') := askStore request shown store
      (report, d.saveStore path store')

/-- Open the history, and ask it. -/
def Disk.askHistory (d : Disk) (environment : Bindings) (request : HistoryRequest)
    (shown : Text) : HistoryReport × Disk :=
  match historyPath environment with
  | .error fault => (.broken shown fault, d)
  | .ok path => d.askHistoryAt path request shown

/-- A text in which a carriage return before a line feed does not count. -/
def joinLineEndsIn : List CodePoint → List CodePoint
  | .char '\r' :: .char '\n' :: rest => '\n' :: joinLineEndsIn rest
  | c :: rest => c :: joinLineEndsIn rest
  | [] => []

/-- A text in which a carriage return before a line feed does not count. -/
def joinLineEnds (s : Text) : Text := Text.ofList (joinLineEndsIn s.toList)

/-- Carry a request out. `input` is what the user types. -/
def Disk.carryOut (d : Disk) (environment : Bindings) (input : Text)
    (request : HistoryRequest) :
    HistoryReport × Disk :=
  match request with
  | .delete runId false =>
    let question := Text.dropStyling ("Delete run " ++ runId ++ "? [y/N]: ")
    let c := confirm question (inputLines input)
    if c.agreed then d.askHistory environment request c.shown
    else (⟨exitFailed, c.shown ++ outputLine "Aborted!" ++ c.pending, none⟩, d)
  | request => d.askHistory environment request ""

/-- The command that inspects the run history. -/
def Disk.history (d : Disk) (environment : Bindings) (input : Text) (argv : List Text) :
    Except Refusal HistoryReport × Disk :=
  match HistoryRequest.read argv with
  | .error refusal => (.error refusal, d)
  | .ok request =>
    let (report, d') := d.carryOut environment input request
    (.ok { report with output := joinLineEnds report.output }, d')

end Conveyor
