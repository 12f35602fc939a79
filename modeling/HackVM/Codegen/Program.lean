import HackVM.Codegen.Emitter
import HackVM.Vm.Source

namespace HackVM.Codegen

open Asm

/-!
# Compiling sources

A program is a list of sources, compiled one after the other with one history.

* `blocks` compiles the commands of an outline, and keeps the code of each apart;
* `compileProgram` compiles sources that have no errors, after the start of the program if it is
  wanted.
-/

/-- The code of one command of a source. -/
structure Block where
  /-- The number of the command's line. -/
  line : Nat
  /-- The command. -/
  command : Command
  /-- The command's code. -/
  code : List Line
  /-- The history with the command added. -/
  after : Emitter
  deriving Repr

/-- The code of numbered commands, one block each. -/
def blocks (e : Emitter) (file : String) : List (Nat × Command) → List Block
  | [] => []
  | (line, command) :: rest =>
    ⟨line, command, e.code file command, e.after command⟩ :: blocks (e.after command) file rest

/-- The blocks, put together, are the code of the commands. -/
theorem flatMap_code_blocks (e : Emitter) (file : String) (commands : List (Nat × Command)) :
    (blocks e file commands).flatMap Block.code = e.codeAll file (commands.map Prod.snd) := by
  induction commands generalizing e with
  | nil => rfl
  | cons numbered rest ih => simp [blocks, Emitter.codeAll, ih]

/-- A source with the name that its variables carry. -/
structure NamedSource where
  /-- The name. -/
  name : String
  /-- The contents. -/
  bytes : Text.Bytes

/-- The code of sources in order, and the history with all of them added, or the first error. -/
def compileSources (e : Emitter) : List NamedSource → Except SourceError (List Line × Emitter)
  | [] => .ok ([], e)
  | source :: rest =>
    let outline := Outline.of (.ok source.bytes)
    match outline.error with
    | some error => .error error
    | none => do
      let commands := outline.commands.map Prod.snd
      let (code, e') ← compileSources (e.afterAll commands) rest
      return (e.codeAll source.name commands ++ code, e')

/-- The code of a program, or the first error in its sources. -/
def compileProgram (bootstrap annotate : Bool) (sources : List NamedSource) :
    Except SourceError (List Line) := do
  let e : Emitter := { annotate }
  if bootstrap then
    let (code, _) ← compileSources e.afterBootstrap sources
    return e.bootstrap ++ code
  else
    let (code, _) ← compileSources e sources
    return code

end HackVM.Codegen
