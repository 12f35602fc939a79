import HackVM.Text.Bytes

namespace HackVM.Files.Path

open Text (Bytes)

/-!
# Paths

A path is names with slashes between them, and a name is any bytes without a slash. Nothing makes a
name UTF-8. Empty names and the name `.` say nothing about where a path leads, except that what
stands before them is a directory.

* `parts` are the names of a path;
* `fileName?`, `stem?` and `extension?` take the last name apart;
* `join` adds a name, and `withExtension` exchanges the extension.
-/

/-- The byte between the names of a path. -/
def slash : UInt8 := 47

/-- The byte before an extension. -/
def dot : UInt8 := 46

/-- The name that leads to the directory above. -/
def above : Bytes := [dot, dot]

/-- The names of a path, empty ones included. -/
def parts (path : Bytes) : List Bytes :=
  path.splitOn slash

/-- Whether a path starts at the root. -/
def isAbsolute (path : Bytes) : Bool :=
  path.head? == some slash

/-- Whether a name leads nowhere else. -/
def staysPut (name : Bytes) : Bool :=
  name == [] || name == [dot]

/-- Splits a path before its last name. A path that ends in `..`, or has no name, has no last
    name. -/
def splitFileName? (path : Bytes) : Option (Bytes × Bytes) :=
  match (parts path).reverse.dropWhile staysPut with
  | [] => none
  | name :: before =>
    if name = above then none else some (before.reverse.flatMap (· ++ [slash]), name)

/-- The last name of a path. -/
def fileName? (path : Bytes) : Option Bytes :=
  (splitFileName? path).map Prod.snd

/-- Splits a name at its last dot. A dot that only opens the name does not count. -/
def splitName (name : Bytes) : Bytes × Option Bytes :=
  match name.reverse.dropWhile (· ≠ dot) with
  | [] | [_] => (name, none)
  | _ :: stem => (stem.reverse, some (name.reverse.takeWhile (· ≠ dot)).reverse)

/-- The last name of a path without its extension. -/
def stem? (path : Bytes) : Option Bytes :=
  (fileName? path).map fun name => (splitName name).1

/-- The extension of the last name of a path: what follows its last dot. -/
def extension? (path : Bytes) : Option Bytes :=
  (fileName? path).bind fun name => (splitName name).2

/-- The path to a name inside the directory that a path leads to. -/
def join (path name : Bytes) : Bytes :=
  if path = [] ∨ path.getLast? = some slash then path ++ name else path ++ slash :: name

/-- A path without the letters of its extension; the dot before them stays. -/
def dropExtension (path : Bytes) : Bytes :=
  match extension? path with
  | none => path
  | some extension => path.take (path.length - extension.length)

/-- The path with another extension. If only `..` is left without the letters of the old extension,
    there is no name to extend, and it stays as it is. -/
def withExtension (path extension : Bytes) : Bytes :=
  match splitFileName? (dropExtension path) with
  | none => dropExtension path
  | some (directory, name) => directory ++ (splitName name).1 ++ dot :: extension

end HackVM.Files.Path
