namespace HackVM.Job

/-!
# Log messages

A run reports what it does in messages of five levels. All of them are kept in order; who wants to
see fewer filters them by level.
-/

/-- How important a message is, the most important first. -/
inductive Level where
  | error
  | warn
  | info
  | debug
  | trace
  deriving DecidableEq, Repr

namespace Level

/-- The place of a level, from the most important on. -/
def rank : Level → Nat
  | error => 0
  | warn => 1
  | info => 2
  | debug => 3
  | trace => 4

/-- The word for a level. -/
def name : Level → String
  | error => "ERROR"
  | warn => "WARN"
  | info => "INFO"
  | debug => "DEBUG"
  | trace => "TRACE"

/-- The word for a level, filled up with spaces to five letters. -/
def paddedName : Level → String
  | error => "ERROR"
  | warn => "WARN "
  | info => "INFO "
  | debug => "DEBUG"
  | trace => "TRACE"

end Level

/-- A message. -/
structure LogEntry where
  /-- How important the message is. -/
  level : Level
  /-- What it says. -/
  message : String
  deriving DecidableEq, Repr

/-- The messages that are at least as important as a level; none at all without one. -/
def upTo (limit : Option Level) (log : List LogEntry) : List LogEntry :=
  match limit with
  | none => []
  | some limit => log.filter fun entry => entry.level.rank ≤ limit.rank

end HackVM.Job
