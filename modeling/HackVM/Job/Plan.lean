import HackVM.Files.Tree
import HackVM.Job.Error

namespace HackVM.Job

open Files
open Text (Bytes)

/-!
# What a run reads and writes

A path that a user gives is either a source, and then the output stands next to it, or a directory
of sources, and then the output stands in it and has its name.

* `Input` and `Plan` say what a run reads and writes;
* `sourcesIn` lists the sources of a directory in order;
* `Plan.ofPath` makes the plan for a path.
-/

/-- The extension of sources. -/
def sourceExtension : Bytes := Text.encode "vm"

/-- The extension of the output. -/
def outputExtension : Bytes := Text.encode "asm"

/-- What a run reads. -/
inductive Input where
  /-- One source. -/
  | file (path : Bytes)
  /-- The sources of a directory. -/
  | directory (path : Bytes) (files : List Bytes)
  deriving DecidableEq, Repr

/-- The paths of the sources. -/
def Input.files : Input → List Bytes
  | file path => [path]
  | directory _ files => files

/-- What a run reads and writes, and how. -/
structure Plan where
  /-- The sources. -/
  input : Input
  /-- The path of the output. -/
  output : Bytes
  /-- Whether the output starts with the code that starts a program. -/
  bootstrap : Bool := true
  /-- Whether each command's code is preceded by the command as a comment. -/
  annotate : Bool := false
  deriving DecidableEq, Repr

/-- Whether an entry of a directory is a source that can be opened: with the path of the directory
    before it, its name may be too long. -/
def isSource (path : Bytes) : Bytes × Node → Bool
  | (name, .file _) =>
    Path.extension? name == some sourceExtension && (FileTree.refusal? (Path.join path name)).isNone
  | _ => false

/-- The names of the sources directly in the directory that a path leads to, in byte order. -/
def sourcesIn (t : FileTree) (path : Bytes) (directory : Location) : List Bytes :=
  (((t.children directory).filter (isSource path)).map Prod.fst).mergeSort fun a b =>
    decide (a ≤ b)

/-- The plan for a path that leads to a source. -/
def Plan.ofFile (path : Bytes) : Except Error Plan :=
  if Path.extension? path = some sourceExtension then
    .ok { input := .file path, output := Path.withExtension path outputExtension }
  else .error (.wrongExtension path)

/-- The plan for a path that leads to a directory. The output has the name of the directory, which
    the root does not have. To find it the path is written out from the root, and on the way that
    can become too long. -/
def Plan.ofDirectory (t : FileTree) (path : Bytes) (directory : Location) : Except Error Plan :=
  let names := sourcesIn t path directory
  if names = [] then .error (.noSources path)
  else
    match t.canonicalize path with
    | .error error => .error (.access path (.system error))
    | .ok location =>
      match location.getLast? with
      | none => .error (.invalidPathKind path)
      | some name =>
        .ok { input := .directory path (names.map (Path.join path))
              output := Path.join path (name ++ Path.dot :: outputExtension) }

/-- The plan for a path. -/
def Plan.ofPath (t : FileTree) (path : Bytes) : Except Error Plan :=
  match t.resolve path with
  | .error _ => .error (.notFound path)
  | .ok (_, .file _) => Plan.ofFile path
  | .ok (directory, .directory) => Plan.ofDirectory t path directory
  | .ok (_, .device) => .error (.invalidPathKind path)

end HackVM.Job
