namespace HackVM.CommandLine

/-!
# Texts of the command line
-/

/-- The name of the program. -/
def programName : String := "vm-translator"

/-- The answer to a question for the version. -/
def versionText : String := "vm-translator 0.1.0\n"

/-- The short help. -/
def shortHelpText : String :=
  "Translates Hack VM code into Hack assembly\n" ++
  "\n" ++
  "Usage: vm-translator [OPTIONS] <PATH>\n" ++
  "\n" ++
  "Arguments:\n" ++
  "  <PATH>  A .vm file or a directory of .vm files\n" ++
  "\n" ++
  "Options:\n" ++
  "      --no-bootstrap  Do not emit the SP setup and the call to Sys.init\n" ++
  "      --annotate      Precede each command's code with the VM command as a comment\n" ++
  "  -v, --verbose...    Raise the log level (repeatable)\n" ++
  "  -h, --help          Print help (see more with '--help')\n" ++
  "  -V, --version       Print version\n"

/-- The long help. -/
def longHelpText : String :=
  "Translates Hack VM code into Hack assembly.\n" ++
  "\n" ++
  "Given a `.vm` file, writes the `.asm` file next to it. Given a directory, translates every " ++
  "`.vm` file in it into `<dir>/<dir>.asm`.\n" ++
  "\n" ++
  "Usage: vm-translator [OPTIONS] <PATH>\n" ++
  "\n" ++
  "Arguments:\n" ++
  "  <PATH>\n" ++
  "          A .vm file or a directory of .vm files\n" ++
  "\n" ++
  "Options:\n" ++
  "      --no-bootstrap\n" ++
  "          Do not emit the SP setup and the call to Sys.init\n" ++
  "\n" ++
  "      --annotate\n" ++
  "          Precede each command's code with the VM command as a comment\n" ++
  "\n" ++
  "  -v, --verbose...\n" ++
  "          Raise the log level (repeatable)\n" ++
  "\n" ++
  "  -h, --help\n" ++
  "          Print help (see a summary with '-h')\n" ++
  "\n" ++
  "  -V, --version\n" ++
  "          Print version\n"

/-- What is shown when the arguments are wrong. -/
def usageText : String :=
  "Usage: vm-translator [OPTIONS] <PATH>\n" ++
  "\n" ++
  "For more information, try '--help'.\n"

end HackVM.CommandLine
