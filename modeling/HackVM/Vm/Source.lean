import HackVM.Files.SystemError
import HackVM.Text.Bytes
import HackVM.Text.Quoted
import HackVM.Vm.Grammar

namespace HackVM

/-!
# Sources

A source is a file of command lines. Lines that hold only blank characters or a comment are
skipped, but they count: a command and an error are known by the number of their line. A line that
is not UTF-8 is reported and does not count.

* `SourceError` is what can go wrong in a source;
* `Event` is what a reader meets in a source, and `events` is the list of them;
* `Outline` is what can be compiled of a source: its commands up to the first error.
-/

/-- Why bytes could not be read. -/
inductive ReadFailure where
  /-- A line is not UTF-8. -/
  | notUtf8
  /-- The operating system refuses. -/
  | system (error : SystemError)
  deriving DecidableEq, Repr

namespace ReadFailure

/-- The text of a failure. -/
def message : ReadFailure → String
  | notUtf8 => "stream did not contain valid UTF-8"
  | system error => error.message

/-- The failure as a record of its parts. -/
def detail : ReadFailure → String
  | notUtf8 =>
    "Error \x7b kind: InvalidData, message: \"stream did not contain valid UTF-8\" \x7d"
  | system error => error.detail

end ReadFailure

/-- What can go wrong in a source. -/
inductive SourceError where
  /-- A line is not a command. -/
  | line (number : Nat) (fault : LineFault)
  /-- A command was asked for after the last one. -/
  | exhausted (line : Nat)
  /-- Reading failed after a number of lines. -/
  | unreadable (line : Nat) (failure : ReadFailure)
  deriving DecidableEq, Repr

namespace SourceError

/-- The text of an error. -/
def message : SourceError → String
  | line number (.invalid text) =>
    "line " ++ toString number ++ ": invalid command `" ++ text ++ "`"
  | line number (.trailing text rest) =>
    "line " ++ toString number ++ ": command `" ++ text ++ "` has extra parts `" ++ rest ++ "`"
  | exhausted number => "no command left after line " ++ toString number
  | unreadable number failure =>
    "read failed after line " ++ toString number ++ ": " ++ failure.message

/-- The error as a record of its parts. -/
def detail : SourceError → String
  | line number (.invalid text) =>
    "Invalid \x7b line: " ++ toString number ++ ", text: " ++ Text.quote text ++ " \x7d"
  | line number (.trailing text rest) =>
    "TrailingInput \x7b line: " ++ toString number ++ ", text: " ++ Text.quote text ++
      ", rest: " ++ Text.quote rest ++ " \x7d"
  | exhausted number => "Exhausted \x7b line: " ++ toString number ++ " \x7d"
  | unreadable number failure =>
    "Read \x7b line: " ++ toString number ++ ", source: " ++ failure.detail ++ " \x7d"

end SourceError

/-- Reads a line with a known number. -/
def Command.ofNumberedLine (number : Nat) (line : List Char) : Except SourceError Command :=
  (Command.ofLine line).mapError (SourceError.line number)

/-! ### Events -/

/-- What a reader meets in a source. -/
inductive Event where
  /-- A line that is neither blank nor only a comment. -/
  | line (number : Nat) (text : List Char)
  /-- A line that is not UTF-8, after a number of lines that are. -/
  | unreadable (after : Nat)
  deriving DecidableEq, Repr

/-- The command of an event, or what is wrong with it. -/
def Event.command : Event → Except SourceError Command
  | line number text => Command.ofNumberedLine number text
  | unreadable after => .error (.unreadable after .notUtf8)

/-- The events of lines that follow a number of counted lines. -/
def eventsAfter (count : Nat) : List Text.Bytes → List Event
  | [] => []
  | bytes :: rest =>
    match Text.decode? bytes with
    | none => .unreadable count :: eventsAfter count rest
    | some text =>
      if Text.bare text = [] then eventsAfter (count + 1) rest
      else .line (count + 1) text :: eventsAfter (count + 1) rest

/-- The events of a source. -/
def events (source : Text.Bytes) : List Event :=
  eventsAfter 0 (Text.physicalLines source)

/-- The number of lines of a source that are UTF-8. -/
def lineCount (source : Text.Bytes) : Nat :=
  (Text.physicalLines source).countP fun bytes => (Text.decode? bytes).isSome

/-! ### Outlines -/

/-- What can be compiled of a source. -/
structure Outline where
  /-- The commands before the first error, each with the number of its line. -/
  commands : List (Nat × Command)
  /-- The first error, if there is one. -/
  error : Option SourceError
  /-- The number of lines of the whole source. -/
  lineCount : Nat
  deriving Repr

/-- The numbered commands before the first event that is an error, and that error. -/
def commandsOfEvents : List Event → List (Nat × Command) × Option SourceError
  | [] => ([], none)
  | .unreadable after :: _ => ([], some (.unreadable after .notUtf8))
  | .line number text :: rest =>
    match Command.ofNumberedLine number text with
    | .error error => ([], some error)
    | .ok command =>
      let (commands, error) := commandsOfEvents rest
      ((number, command) :: commands, error)

/-- The outline of a source, which may refuse to be read at all. -/
def Outline.of : Except SystemError Text.Bytes → Outline
  | .error error => ⟨[], some (.unreadable 0 (.system error)), 0⟩
  | .ok source =>
    let (commands, error) := commandsOfEvents (events source)
    ⟨commands, error, HackVM.lineCount source⟩

end HackVM
