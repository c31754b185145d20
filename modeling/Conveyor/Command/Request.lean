import Conveyor.Command.Word
import Conveyor.Log
import Conveyor.Number.Reading

/-!
# Requests to run a pipeline

A command line asks to run a document, with options. Words are acted upon from left to right, so
that the first thing wrong, or the first call for help, decides.

- `RunOptions`: the options that were given.
- `RunRequest`: the document and the options.
- `Refusal`: why a command line is not carried out.
- `RunRequest.read`: the request of a command line.
-/

namespace Conveyor

/-- Where jobs run. -/
inductive ProvisionerKind where
  | onHost
  | inContainers
  deriving DecidableEq, Repr

namespace ProvisionerKind

/-- The word for a kind. -/
def word : ProvisionerKind → Text
  | onHost => "local"
  | inContainers => "docker"

/-- The kind of a word. -/
def ofWord? (s : Text) : Option ProvisionerKind :=
  [onHost, inContainers].find? fun k => k.word = s

end ProvisionerKind

/-- The options of a request, as far as they were given. -/
structure RunOptions where
  branch : Option Text
  changedPaths : List Text
  maxConcurrency : Option Int
  provisioner : Option ProvisionerKind
  outputLimit : Option Int
  teardownGrace : Option Binary64
  dbPath : Option Text
  containerPrefix : Option Text
  defaultImage : Option Text
  workspace : Option Text
  poolImages : Option (List Text)
  json : Bool
  logLevel : LogLevel
  deriving DecidableEq, Repr

/-- No options. -/
def RunOptions.none : RunOptions :=
  ⟨.none, [], .none, .none, .none, .none, .none, .none, .none, .none, .none, false, .info⟩

/-- A request to run a document. -/
structure RunRequest where
  document : Text
  options : RunOptions
  deriving DecidableEq, Repr

/-- Why a command line is not carried out. -/
inductive Refusal where
  /-- It asks for help. -/
  | help
  /-- It is not understood. -/
  | usage
  deriving DecidableEq, Repr

/-- The exit code after a refusal. -/
def Refusal.exitCode : Refusal → Int
  | .help => 0
  | .usage => 2

/-- Does the option come with a value? -/
def OptionName.takesValue : OptionName → Bool
  | .help => false
  | .json => false
  | _ => true

/-- The options after one was given with a value, if the value is of its kind. -/
def RunOptions.put? (o : RunOptions) (name : OptionName) (text : Text) : Option RunOptions :=
  match name with
  | .branch => some { o with branch := text }
  | .changedPath => some { o with changedPaths := o.changedPaths ++ [text] }
  | .maxConcurrency => (readInt? text.toList).map fun n => { o with maxConcurrency := some n }
  | .provisioner => (ProvisionerKind.ofWord? text).map fun k => { o with provisioner := some k }
  | .outputLimit => (readInt? text.toList).map fun n => { o with outputLimit := some n }
  | .teardownGrace => (readFloat? text.toList).map fun x => { o with teardownGrace := some x }
  | .dbPath => some { o with dbPath := text }
  | .containerPrefix => some { o with containerPrefix := text }
  | .defaultImage => some { o with defaultImage := text }
  | .workspace => some { o with workspace := text }
  | .poolImage => some { o with poolImages := o.poolImages.getD [] ++ [text] }
  | .logLevel => (LogLevel.ofName? text).map fun l => { o with logLevel := l }
  | .help => .none
  | .json => .none

/-- What the characters behind the short spelling of the help option come to: more short options,
of which help is the only one. -/
def shortHelpRefusal (more : List CodePoint) : Refusal :=
  if !more.isEmpty && more.all (· == CodePoint.char 'h') then .help else .usage

namespace RunRequest

/-- Act upon words. `surplus` says whether there was a word too many. -/
def ofWords (document : Option Text) (surplus : Bool) (o : RunOptions) :
    List Word → Except Refusal RunRequest
  | [] =>
    match document with
    | some d => if surplus then .error .usage else .ok ⟨d, o⟩
    | none => .error .usage
  | .named name attached :: rest =>
    if name.takesValue then
      match attached, rest with
      | some text, rest =>
        match o.put? name text with
        | some o' => ofWords document surplus o' rest
        | none => .error .usage
      | none, .operand text :: rest' =>
        match o.put? name text with
        | some o' => ofWords document surplus o' rest'
        | none => .error .usage
      | none, _ => .error .usage
    else if attached.isSome then .error .usage
    else if name = .json then ofWords document surplus { o with json := true } rest
    else .error .help
  | .shortHelp more :: _ => .error (shortHelpRefusal more)
  | .unknown :: rest => ofWords document true o rest
  | .marker :: rest => ofWords document (surplus || document.isSome) o rest
  -- a marker right behind the document belongs to it
  | .operand text :: .marker :: rest =>
    match document with
    | none => ofWords (some text) surplus o rest
    | some d => ofWords (some d) true o rest
  | .operand text :: rest =>
    match document with
    | none => ofWords (some text) surplus o rest
    | some d => ofWords (some d) true o rest

/-- The request of a command line. -/
def read (argv : List Text) : Except Refusal RunRequest :=
  match Word.read argv with
  | some words => ofWords none false .none words
  | none => .error .usage

end RunRequest

end Conveyor
