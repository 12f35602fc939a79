import HackVM.CommandLine.Program

namespace HackVM.Main

open CommandLine
open Files
open Job

/-!
# The command line program

The program itself is the function `CommandLine.execute`. Here the files that it may look at are
read beforehand, and the files that it changed are written afterwards. The operating system is asked
by texts, so that only names that are UTF-8 can be reached from here.
-/

/-- The absolute path of a location. -/
def absolute (location : Location) : String :=
  "/" ++ String.intercalate "/" (location.map Text.shown)

/-- Adds what the operating system has at a location, if there is anything. -/
def look (t : FileTree) (location : Location) : IO FileTree := do
  let path := (← IO.currentDir) / absolute location
  let kind ← try pure (some (← path.metadata).type) catch _ => pure none
  match kind with
  | none => return t
  | some .dir => return t.put location .directory
  | some .file => return t.put location (.file (← IO.FS.readBinFile path).data.toList)
  | some _ => return t.put location .device

/-- Adds what the operating system has along a path, and the location that it leads to. -/
def lookAlong (t : FileTree) (path : Text.Bytes) : IO (FileTree × Location) := do
  let mut t := t
  let mut here := t.origin path
  for name in Path.parts path do
    match t.follow here name with
    | .ok location =>
      here := location
      if location ≠ [] then t ← look t location
    | .error _ => return (t, here)
  return (t, here)

/-- Adds what the operating system has directly in a directory under the name of a source. -/
def lookInside (t : FileTree) (directory : Location) : IO FileTree := do
  let mut t := t
  if t.node? directory = some .directory then
    for entry in ← ((← IO.currentDir) / absolute directory).readDir do
      let name := Text.encode entry.fileName
      if Path.extension? name = some sourceExtension then
        t ← look t (directory ++ [name])
  return t

/-- The files that a compilation may look at: those along the path, the sources in the directory
    that it leads to, and the output. -/
def gather (path : Text.Bytes) : IO FileTree := do
  let working := Text.encode (← IO.currentDir).toString
  let here := (Path.parts working).filter (!Path.staysPut ·)
  let t := (⟨[], here⟩ : FileTree).makeDirectory working
  let (t, location) ← lookAlong t path
  let t ← lookInside t location
  match Plan.ofPath t path with
  | .ok plan => return (← lookAlong t plan.output).1
  | .error _ => return t

/-- Writes the files that differ from what was there before. -/
def writeChanges (before after : FileTree) : IO Unit := do
  for (location, node) in after.entries do
    if let .file contents := node then
      if before.node? location ≠ some node then
        IO.FS.writeBinFile ((← IO.currentDir) / absolute location) contents.toByteArray

end HackVM.Main

/-- Runs the program on the files of the operating system. -/
def main (arguments : List String) : IO UInt32 := do
  let arguments := arguments.map HackVM.Text.encode
  let before ← match HackVM.CommandLine.Request.ofArguments arguments with
    | .compile options => HackVM.Main.gather options.path
    | _ => pure ⟨[], []⟩
  let result := HackVM.CommandLine.execute before arguments
  HackVM.Main.writeChanges before result.tree
  IO.print result.output
  IO.eprint result.diagnostics
  return result.exitCode.toUInt32
