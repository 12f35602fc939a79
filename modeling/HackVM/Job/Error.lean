import HackVM.Vm.Source

namespace HackVM.Job

/-!
# What can stop a run

* `AccessFailure` is why a file could not be opened or written;
* `Error` is everything that can stop a run;
* `Error.message` is its text for a user and `Error.detail` its record of parts for a log.
-/

/-- Why a file could not be opened or written. -/
inductive AccessFailure where
  /-- The operating system refuses. -/
  | system (error : SystemError)
  /-- There is no room for more output. -/
  | noRoom
  deriving DecidableEq, Repr

namespace AccessFailure

/-- The text of a failure. -/
def message : AccessFailure → String
  | system error => error.message
  | noRoom => "sink full"

/-- The failure as a record of its parts. -/
def detail : AccessFailure → String
  | system error => error.detail
  | noRoom => "Custom \x7b kind: Other, error: \"sink full\" \x7d"

end AccessFailure

/-- What can stop a run. -/
inductive Error where
  /-- The path does not exist. -/
  | notFound (path : Text.Bytes)
  /-- The file is not a source, or the name of a source is not UTF-8. -/
  | wrongExtension (path : Text.Bytes)
  /-- The path is neither a file nor a directory with a name. -/
  | invalidPathKind (path : Text.Bytes)
  /-- The directory has no source in it. -/
  | noSources (path : Text.Bytes)
  /-- A file could not be opened or written. -/
  | access (path : Text.Bytes) (failure : AccessFailure)
  /-- A source has an error. -/
  | source (path : Text.Bytes) (error : SourceError)
  deriving DecidableEq, Repr

namespace Error

/-- The text of an error. -/
def message : Error → String
  | notFound path => Text.shown path ++ ": file doesn't exist"
  | wrongExtension path => Text.shown path ++ ": program receives .vm files"
  | invalidPathKind path => Text.shown path ++ ": program receives a .vm file or directory"
  | noSources path => Text.shown path ++ ": directory contains no .vm files"
  | access path failure => Text.shown path ++ ": " ++ failure.message
  | source path error => Text.shown path ++ ": " ++ error.message

/-- The error as a record of its parts. -/
def detail : Error → String
  | notFound path => "NotFound(" ++ Text.quoteBytes path ++ ")"
  | wrongExtension path => "WrongExtension(" ++ Text.quoteBytes path ++ ")"
  | invalidPathKind path => "InvalidPathKind(" ++ Text.quoteBytes path ++ ")"
  | noSources path => "NoSources(" ++ Text.quoteBytes path ++ ")"
  | access path failure =>
    "Io \x7b path: " ++ Text.quoteBytes path ++ ", source: " ++ failure.detail ++ " \x7d"
  | source path error =>
    "Parse \x7b path: " ++ Text.quoteBytes path ++ ", source: " ++ error.detail ++ " \x7d"

end Error

end HackVM.Job
