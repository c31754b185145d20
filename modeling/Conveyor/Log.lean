import Conveyor.Text.Basic

/-!
# The log

- `LogLevel`: how grave a message is.
- `LogEntry`: a message with its level and the time at which it was logged.
- `sortLog`: entries by time, then by the name of the level, then by message.
-/

namespace Conveyor

/-- How grave a message is. -/
inductive LogLevel where
  | debug
  | info
  | warning
  | error
  | critical
  deriving DecidableEq, Repr

namespace LogLevel

/-- The name of a level. -/
def name : LogLevel → Text
  | debug => "DEBUG"
  | info => "INFO"
  | warning => "WARNING"
  | error => "ERROR"
  | critical => "CRITICAL"

/-- The rank of a level. -/
def rank : LogLevel → Nat
  | debug => 0
  | info => 1
  | warning => 2
  | error => 3
  | critical => 4

/-- All levels. -/
def all : List LogLevel := [debug, info, warning, error, critical]

/-- The level of a name. -/
def ofName? (s : Text) : Option LogLevel := all.find? fun l => l.name = s

end LogLevel

/-- A logged message. The time is in nanoseconds. -/
structure LogEntry where
  time : Nat
  level : LogLevel
  message : Text
  deriving DecidableEq, Repr

/-- Does the first entry sort no later than the second? -/
def LogEntry.notAfter (a b : LogEntry) : Bool :=
  if a.time ≠ b.time then a.time < b.time
  else if a.level ≠ b.level then a.level.name.toList < b.level.name.toList
  else !decide (b.message.toList < a.message.toList)

/-- The entries of at least the given level. -/
def logFrom (least : LogLevel) (entries : List LogEntry) : List LogEntry :=
  entries.filter fun e => least.rank ≤ e.level.rank

/-- Entries by time, then by the name of the level, then by message. -/
def sortLog (entries : List LogEntry) : List LogEntry := entries.mergeSort LogEntry.notAfter

end Conveyor
