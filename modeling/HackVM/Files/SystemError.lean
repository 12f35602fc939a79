namespace HackVM

/-!
# Errors of the operating system

Five things can go wrong when a path is followed, opened or read. Each has a kind and a text, and
those that the operating system itself reports have a number, which is shown with the text.
-/

/-- Why a path is refused. -/
inductive SystemError where
  /-- A part of the path does not exist. -/
  | noEntry
  /-- The path goes through something that is not a directory. -/
  | notDirectory
  /-- The path is a directory where a file is needed. -/
  | isDirectory
  /-- The path, or a name in it, has too many bytes. -/
  | nameTooLong
  /-- The path has a null character in it, so that it cannot be passed on. -/
  | nullCharacter
  deriving DecidableEq, Repr

namespace SystemError

/-- The number of an error, if the operating system reports it. -/
def code? : SystemError → Option Nat
  | noEntry => some 2
  | notDirectory => some 20
  | isDirectory => some 21
  | nameTooLong => some 36
  | nullCharacter => none

/-- The kind of an error, in one word. -/
def kindName : SystemError → String
  | noEntry => "NotFound"
  | notDirectory => "NotADirectory"
  | isDirectory => "IsADirectory"
  | nameTooLong => "InvalidFilename"
  | nullCharacter => "InvalidInput"

/-- The text of an error. -/
def text : SystemError → String
  | noEntry => "No such file or directory"
  | notDirectory => "Not a directory"
  | isDirectory => "Is a directory"
  | nameTooLong => "File name too long"
  | nullCharacter => "file name contained an unexpected NUL byte"

/-- The text of an error, with its number. -/
def message (e : SystemError) : String :=
  match e.code? with
  | some code => e.text ++ " (os error " ++ toString code ++ ")"
  | none => e.text

/-- The error as a record of its parts. -/
def detail (e : SystemError) : String :=
  let parts := "kind: " ++ e.kindName ++ ", message: \"" ++ e.text ++ "\" \x7d"
  match e.code? with
  | some code => "Os \x7b code: " ++ toString code ++ ", " ++ parts
  | none => "Error \x7b " ++ parts

end SystemError

end HackVM
