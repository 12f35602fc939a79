import HackVM.CommandLine.Help
import HackVM.CommandLine.Options
import HackVM.Job.Run
import HackVM.Text.ControlSequence

namespace HackVM.CommandLine

open Files
open Job

/-!
# The program

The whole program as a function: from the files and the arguments to the files afterwards, what is
printed, and the exit code.

* `Options.logLimit` says which messages are shown;
* `Record.text` is a message as it is printed;
* `Result` is everything that can be seen of a run;
* `execute` is the program.
-/

/-- The least important messages that are shown. -/
def Options.logLimit (options : Options) : Level :=
  match options.verbosity with
  | 0 => .warn
  | 1 => .info
  | 2 => .debug
  | _ => .trace

/-! ### Diagnostics -/

/-- A message with the part of the program that it is from. -/
structure Record where
  /-- The part of the program. -/
  component : String
  /-- The message. -/
  entry : LogEntry
  deriving DecidableEq, Repr

/-- A text with four spaces after each newline, so that the lines of one message stand together. -/
def indented (text : String) : String :=
  String.ofList (text.toList.flatMap fun c =>
    if c = '\n' then ['\n', ' ', ' ', ' ', ' '] else [c])

/-- A message as it is printed. It is cleared of control sequences as a whole, so that one which
    is still open at the end takes the newline with it. -/
def Record.text (record : Record) : String :=
  Text.withoutControls
    ("[" ++ record.entry.level.paddedName ++ " " ++ record.component ++ "] " ++
      indented record.entry.message ++ "\n")

/-- A message about the progress of a run. -/
def progressRecord (entry : LogEntry) : Record :=
  ⟨"vm_translator::driver", entry⟩

/-- The message that a run was stopped by an error. -/
def errorRecord (error : Job.Error) : Record :=
  ⟨"vm_translator", .error, error.detail⟩

/-- The line for the user about an error. -/
def errorLine (error : Job.Error) : String :=
  programName ++ ": " ++ error.message ++ "\n"

/-! ### Runs of the program -/

/-- Everything that can be seen of a run of the program. -/
structure Result where
  /-- The files afterwards. -/
  tree : FileTree
  /-- The exit code. -/
  exitCode : Nat
  /-- What is printed. -/
  output : String := ""
  /-- The messages that are printed, in order. -/
  log : List Record := []
  /-- What is printed for the user after the messages. -/
  notice : String := ""

/-- All that is printed beside the output. -/
def Result.diagnostics (result : Result) : String :=
  String.join (result.log.map Record.text) ++ result.notice

/-- What a compilation comes to, without its messages. -/
def Options.outcome (options : Options) (t : FileTree) : Outcome :=
  match Plan.ofPath t options.path with
  | .error error => ⟨t, [], some error⟩
  | .ok plan =>
    run t { plan with bootstrap := options.bootstrap, annotate := options.annotate }

/-- Compiles what the options name. -/
def compile (t : FileTree) (options : Options) : Result :=
  let outcome := options.outcome t
  { tree := outcome.tree
    exitCode := if outcome.error.isNone then 0 else 1
    log := (upTo (some options.logLimit) outcome.log).map progressRecord ++
      outcome.error.toList.map errorRecord
    notice := outcome.error.elim "" errorLine }

/-- The program. -/
def execute (t : FileTree) (arguments : List Text.Bytes) : Result :=
  match Request.ofArguments arguments with
  | .shortHelp => { tree := t, exitCode := 0, output := shortHelpText }
  | .longHelp => { tree := t, exitCode := 0, output := longHelpText }
  | .version => { tree := t, exitCode := 0, output := versionText }
  | .usageError => { tree := t, exitCode := 1, notice := usageText }
  | .compile options => compile t options

end HackVM.CommandLine
