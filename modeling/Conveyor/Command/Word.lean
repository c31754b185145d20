import Conveyor.Text.DecimalDigit
import Conveyor.Text.Pieces

/-!
# Words of a command line

Each word of a command line is classified by itself, before any of them is acted upon. A word
that starts with a dash names an option if it spells one out, or abbreviates exactly one; a
negative number and a word with a space in it are operands all the same. After the marker `--`
every word is an operand.

- `OptionName`: the options.
- `Word`: what a word is.
- `Word.read`: the words of a command line, unless one of them abbreviates several options.
-/

namespace Conveyor

/-- The options of the command that runs a pipeline. -/
inductive OptionName where
  | help
  | branch
  | changedPath
  | maxConcurrency
  | provisioner
  | outputLimit
  | teardownGrace
  | dbPath
  | containerPrefix
  | defaultImage
  | workspace
  | poolImage
  | json
  | logLevel
  deriving DecidableEq, Repr

namespace OptionName

/-- The spelling of an option. -/
def spelling : OptionName → Text
  | help => "--help"
  | branch => "--branch"
  | changedPath => "--changed-path"
  | maxConcurrency => "--max-concurrency"
  | provisioner => "--provisioner"
  | outputLimit => "--output-limit"
  | teardownGrace => "--teardown-grace"
  | dbPath => "--db-path"
  | containerPrefix => "--container-prefix"
  | defaultImage => "--default-image"
  | workspace => "--workspace"
  | poolImage => "--pool-image"
  | json => "--json"
  | logLevel => "--log-level"

/-- All options. -/
def all : List OptionName :=
  [help, branch, changedPath, maxConcurrency, provisioner, outputLimit, teardownGrace, dbPath,
    containerPrefix, defaultImage, workspace, poolImage, json, logLevel]

/-- The options that a spelling may stand for: the one it spells out, or all that it starts. -/
def startedBy (start : List CodePoint) : List OptionName :=
  match all.find? fun o => o.spelling.toList = start with
  | some o => [o]
  | none => all.filter fun o => (Text.dropStart? start o.spelling.toList).isSome

end OptionName

/-- A word of a command line. -/
inductive Word where
  /-- A word that is no option. -/
  | operand (text : Text)
  /-- An option, with the value after its equals sign if it has one. -/
  | named (option : OptionName) (attached : Option Text)
  /-- The short spelling of the help option with more characters behind it, or behind its equals
  sign. -/
  | shortHelp (more : List CodePoint)
  /-- An option that there is not. -/
  | unknown
  /-- The marker after which every word is an operand. -/
  | marker
  deriving DecidableEq, Repr

namespace Word

/-- Is the text one or more decimal digits? -/
def areDigits (cs : List CodePoint) : Bool :=
  !cs.isEmpty && cs.all fun c => (Text.digitValue? c).isSome

/-- A text without a line feed at its end. -/
def dropLineFeed (cs : List CodePoint) : List CodePoint :=
  if cs.getLast? = some '\n' then cs.dropLast else cs

/-- Is what follows a dash a number? -/
def isMagnitude (cs : List CodePoint) : Bool :=
  let cs := dropLineFeed cs
  areDigits cs ||
    match cs.dropWhile fun c => (Text.digitValue? c).isSome with
    | .char '.' :: fraction => areDigits fraction
    | _ => false

/-- A word that starts with a dash and names no option. -/
def strange (text : Text) : Word :=
  if isMagnitude (text.toList.drop 1) || text.toList.contains ' ' then .operand text else
    .unknown

/-- A word before and after its first equals sign. -/
def splitAtEquals (cs : List CodePoint) : List CodePoint × Option Text :=
  let rest := cs.dropWhile (· ≠ CodePoint.char '=')
  (cs.takeWhile (· ≠ CodePoint.char '='),
    if rest.isEmpty then none else some (Text.ofList (rest.drop 1)))

/-- Classify a word that starts with two dashes; `none` is an ambiguous abbreviation. -/
def ofLong? (text : Text) : Option Word :=
  let (start, attached) := splitAtEquals text.toList
  match OptionName.startedBy start with
  | [] => some (strange text)
  | [option] => some (.named option attached)
  | _ => none

/-- Classify a word that starts with a single dash. -/
def ofShort (text : Text) : Word :=
  match text.toList with
  | [.char '-'] => .operand text
  | [.char '-', .char 'h'] => .named .help none
  | .char '-' :: .char 'h' :: .char '=' :: more => .shortHelp more
  | .char '-' :: .char 'h' :: more => .shortHelp more
  | _ => strange text

/-- Classify a word that is not the marker; `none` is an ambiguous abbreviation. -/
def classify? (text : Text) : Option Word :=
  match text.toList with
  | .char '-' :: .char '-' :: _ => ofLong? text
  | .char '-' :: _ => some (ofShort text)
  | _ => some (.operand text)

/-- The words of a command line; `none` if one is an ambiguous abbreviation. -/
def read : List Text → Option (List Word)
  | [] => some []
  | text :: rest =>
    if text = "--" then some (.marker :: rest.map .operand)
    else do
      let word ← classify? text
      let words ← read rest
      some (word :: words)

end Word

end Conveyor
