import HackVM.Text.Pieces

namespace HackVM.CommandLine

open Text (Bytes Piece)

/-!
# Arguments of the command line

The arguments are looked at from left to right. The first that asks for help or the version is
answered, unless one before it is already wrong. Arguments are any bytes: a path need not be UTF-8,
and there is no such option.

* `Options` is what a user can choose and `Request` what the arguments come to;
* `Scan` is what is known after some arguments, and `Scan.option`, `Scan.cluster` and
  `Scan.positional` add one;
* `Request.ofArguments` reads all arguments.
-/

/-- What a user can choose. -/
structure Options where
  /-- The source or the directory of sources. -/
  path : Bytes
  /-- Whether the output starts with the code that starts a program. -/
  bootstrap : Bool
  /-- Whether each command's code is preceded by the command as a comment. -/
  annotate : Bool
  /-- How often more messages were asked for. -/
  verbosity : Nat
  deriving DecidableEq, Repr

/-- What the arguments come to. -/
inductive Request where
  /-- Show the short help. -/
  | shortHelp
  /-- Show the long help. -/
  | longHelp
  /-- Show the version. -/
  | version
  /-- The arguments are wrong. -/
  | usageError
  /-- Compile. -/
  | compile (options : Options)
  deriving DecidableEq, Repr

/-- What is known after some arguments. -/
structure Scan where
  /-- The path, if it was given. -/
  path : Option Bytes := none
  /-- Whether the start of the program was refused. -/
  noBootstrap : Bool := false
  /-- Whether comments were asked for. -/
  annotate : Bool := false
  /-- How often more messages were asked for. -/
  verbosity : Nat := 0
  /-- Whether the arguments that follow are no options, whatever they look like. -/
  optionsEnded : Bool := false
  deriving DecidableEq, Repr

namespace Scan

/-- Adds a long option. An option that is a choice can be given once. -/
def option (s : Scan) (argument : Bytes) : Except Request Scan :=
  match Text.text? argument with
  | some "--help" => .error .longHelp
  | some "--version" => .error .version
  | some "--verbose" => .ok { s with verbosity := s.verbosity + 1 }
  | some "--annotate" => if s.annotate then .error .usageError else .ok { s with annotate := true }
  | some "--no-bootstrap" =>
    if s.noBootstrap then .error .usageError else .ok { s with noBootstrap := true }
  | _ => .error .usageError

/-- Adds a short option. -/
def letter (s : Scan) : Piece → Except Request Scan
  | .char 'h' => .error .shortHelp
  | .char 'V' => .error .version
  | .char 'v' => .ok { s with verbosity := s.verbosity + 1 }
  | _ => .error .usageError

/-- Adds short options that share one argument. -/
def cluster (s : Scan) (letters : Bytes) : Except Request Scan :=
  (Text.pieces letters).foldlM letter s

/-- Adds a path. There is exactly one, and it is not empty. -/
def positional (s : Scan) (argument : Bytes) : Except Request Scan :=
  if s.path.isSome ∨ argument = [] then .error .usageError
  else .ok { s with path := some argument }

/-- Adds an argument. A lone `-` is a path, and `--` ends the options. -/
def add (s : Scan) (argument : Bytes) : Except Request Scan :=
  if s.optionsEnded then s.positional argument
  else if argument = Text.encode "--" then .ok { s with optionsEnded := true }
  else if (Text.encode "--").isPrefixOf argument then s.option argument
  else if (Text.encode "-").isPrefixOf argument ∧ argument ≠ Text.encode "-" then
    s.cluster (argument.drop 1)
  else s.positional argument

/-- What all arguments come to. -/
def finish (s : Scan) : Request :=
  match s.path with
  | none => .usageError
  | some path => .compile ⟨path, !s.noBootstrap, s.annotate, s.verbosity⟩

end Scan

/-- Reads the arguments of the command line. -/
def Request.ofArguments (arguments : List Bytes) : Request :=
  match arguments.foldlM Scan.add {} with
  | .error request => request
  | .ok scan => scan.finish

end HackVM.CommandLine
