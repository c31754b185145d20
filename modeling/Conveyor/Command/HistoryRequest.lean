import Conveyor.Command.Request

/-!
# Requests about the run history

A command line names a group, a command in it, and what the command needs. Options are spelled
out; an option that takes a value takes the next word, whatever it is.

- `HistoryRequest`: what can be asked of the history.
- `HistoryRequest.read`: the request of a command line.
-/

namespace Conveyor

/-- What can be asked of the run history. -/
inductive HistoryRequest where
  /-- List the runs, at most so many. -/
  | list (limit : Option Int) (json : Bool)
  /-- Show one run, with or without the output of its steps. -/
  | inspect (runId : Text) (json output : Bool)
  /-- Delete one run, with or without asking. -/
  | delete (runId : Text) (confirmed : Bool)
  deriving DecidableEq, Repr

/-- The words of a command: options with their values, and operands. -/
structure SortedWords where
  options : List (Text × Text)
  operands : List Text
  deriving DecidableEq, Repr

namespace SortedWords

/-- One more operand in front. -/
def withOperand (text : Text) (s : SortedWords) : SortedWords :=
  { s with operands := text :: s.operands }

/-- One more option in front. -/
def withOption (name text : Text) (s : SortedWords) : SortedWords :=
  { s with options := (name, text) :: s.options }

/-- Sort words. `flags` are the options without a value, `valued` those with one; `none` if a
word is no option that there is, or lacks its value. -/
def read? (flags valued : List Text) : List Text → Option SortedWords
  | [] => some ⟨[], []⟩
  | word :: rest =>
    if word = "--" then some ⟨[], rest⟩
    else if word.toList.head? = some '-' && word ≠ "-" then
      let (name, attached) := Word.splitAtEquals word.toList
      let name := Text.ofList name
      if flags.contains name then
        if attached.isSome then none else (read? flags valued rest).map (withOption name "")
      else if valued.contains name then
        match attached, rest with
        | some text, rest => (read? flags valued rest).map (withOption name text)
        | none, text :: rest' => (read? flags valued rest').map (withOption name text)
        | none, [] => none
      else none
    else (read? flags valued rest).map (withOperand word)

/-- Was the option given? -/
def has (s : SortedWords) (name : Text) : Bool := s.options.any fun o => o.1 = name

/-- The value that was given last for an option. -/
def last? (s : SortedWords) (name : Text) : Option Text :=
  (s.options.reverse.find? fun o => o.1 = name).map Prod.snd

end SortedWords

namespace HistoryRequest

/-- The help option. -/
def helpFlag : Text := "--help"

/-- The words of a command that has some options, unless they ask for help. -/
def sorted (flags valued argv : List Text) : Except Refusal SortedWords :=
  match SortedWords.read? (helpFlag :: flags) valued argv with
  | none => .error .usage
  | some s => if s.has helpFlag then .error .help else .ok s

/-- The limit of a listing: a whole number, if there is one. -/
def readLimit : Option Text → Except Refusal (Option Int)
  | none => .ok none
  | some text =>
    match readInt? text.toList with
    | some n => .ok (some n)
    | none => .error .usage

/-- The command that lists runs. -/
def readList (argv : List Text) : Except Refusal HistoryRequest := do
  let s ← sorted ["--json"] ["--limit"] argv
  let limit ← readLimit (s.last? "--limit")
  if s.operands.isEmpty then .ok (.list limit (s.has "--json")) else .error .usage

/-- The command that shows a run. -/
def readInspect (argv : List Text) : Except Refusal HistoryRequest := do
  let s ← sorted ["--json", "--output"] [] argv
  match s.operands with
  | [runId] => .ok (.inspect runId (s.has "--json") (s.has "--output"))
  | _ => .error .usage

/-- The command that deletes a run. -/
def readDelete (argv : List Text) : Except Refusal HistoryRequest := do
  let s ← sorted ["--yes"] [] argv
  match s.operands with
  | [runId] => .ok (.delete runId (s.has "--yes"))
  | _ => .error .usage

/-- The name of a command in a group, and the words that are left to it. Only the help option may
stand before the name. -/
def select (helpWanted : Bool) : List Text → Except Refusal (Text × List Text)
  | [] => if helpWanted then .error .help else .error .usage
  | word :: rest =>
    if word = "--" then
      if helpWanted then .error .help
      else
        match rest with
        | name :: more => .ok (name, more)
        | [] => .error .usage
    else if word = helpFlag then select true rest
    else if word.toList.head? = some '-' && word ≠ "-" then .error .usage
    else if helpWanted then .error .help
    else .ok (word, rest)

/-- The request of a command line. -/
def read (argv : List Text) : Except Refusal HistoryRequest := do
  let (group, argv) ← select false argv
  if group = "runs" then
    let (command, argv) ← select false argv
    if command = "list" then readList argv
    else if command = "show" then readInspect argv
    else if command = "delete" then readDelete argv
    else .error .usage
  else .error .usage

end HistoryRequest

end Conveyor
