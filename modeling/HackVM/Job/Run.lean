import HackVM.Job.Delivery
import HackVM.Job.Plan

namespace HackVM.Job

open Codegen
open Files

/-!
# Carrying out a plan

A run makes the output file empty, then compiles the sources one after the other, and stops at the
first error. What was compiled before the error stays in the output.

* `Buffer` says how much of the output has reached its file before the run ends, which matters only
  to a source that is the output itself;
* `compileFiles` compiles sources in order;
* `run` carries out a plan.
-/

/-! ### The output on its way to the file -/

/-- The number of bytes that are collected before they are passed on. -/
def bufferSize : Nat := 8192

/-- Bytes on their way to a file. -/
structure Buffer where
  /-- The number of bytes that have reached the file. -/
  passed : Nat := 0
  /-- The number of bytes that wait. -/
  waiting : Nat := 0

/-- Adds a number of bytes. Those that wait are passed on when the new ones do not fit beside them,
    and as many as would fill the buffer do not wait at all. -/
def Buffer.add (b : Buffer) (count : Nat) : Buffer :=
  let b := if bufferSize < b.waiting + count then ⟨b.passed + b.waiting, 0⟩ else b
  if bufferSize ≤ count then ⟨b.passed + b.waiting + count, 0⟩
  else ⟨b.passed, b.waiting + count⟩

/-- No byte is lost on the way. -/
theorem Buffer.passed_add_waiting_add (b : Buffer) (count : Nat) :
    (b.add count).passed + (b.add count).waiting = b.passed + b.waiting + count := by
  unfold Buffer.add
  split <;> split <;> simp only <;> omega

/-- Adds lines; the newline of each is added after it. -/
def Buffer.addLines (b : Buffer) (lines : List Asm.Line) : Buffer :=
  lines.foldl (fun b line => (b.add line.render.utf8ByteSize).add 1) b

theorem Buffer.passed_add_waiting_addLines (b : Buffer) (lines : List Asm.Line) :
    (b.addLines lines).passed + (b.addLines lines).waiting =
      b.passed + b.waiting + (Asm.render lines).utf8ByteSize := by
  induction lines generalizing b with
  | nil => simp [addLines, Asm.render]
  | cons line lines ih =>
    have hcons : b.addLines (line :: lines) =
        ((b.add line.render.utf8ByteSize).add 1).addLines lines := rfl
    have hrender : (Asm.render (line :: lines)).utf8ByteSize =
        line.render.utf8ByteSize + 1 + (Asm.render lines).utf8ByteSize := by
      have hnewline : "\n".utf8ByteSize = 1 := by decide
      simp [Asm.render, hnewline]
    rw [hcons, ih, passed_add_waiting_add, passed_add_waiting_add, hrender]
    omega

/-- The part of the output that is in its file while the run goes on. -/
def passedOn (code : List Asm.Line) : Text.Bytes :=
  (Text.encode (Asm.render code)).take (Buffer.addLines {} code).passed

/-- Every byte that the buffer counts as passed is a byte of the code. -/
theorem length_passedOn (code : List Asm.Line) :
    (passedOn code).length = (Buffer.addLines {} code).passed := by
  have hlength : (Text.encode (Asm.render code)).length = (Asm.render code).utf8ByteSize := by
    simp [Text.encode]
  have hkept : (Buffer.addLines {} code).passed + (Buffer.addLines {} code).waiting =
      0 + 0 + (Asm.render code).utf8ByteSize := Buffer.passed_add_waiting_addLines {} code
  rw [passedOn, List.length_take, hlength]
  omega

/-! ### Sources -/

/-- How far a run has come. -/
structure Progress where
  /-- The history of what was compiled. -/
  emitter : Emitter
  /-- The code so far. -/
  code : List Asm.Line
  /-- The messages so far. -/
  log : List LogEntry

/-- The progress with a message added. -/
def Progress.say (p : Progress) (level : Level) (message : String) : Progress :=
  { p with log := p.log ++ [⟨level, message⟩] }

/-- The progress with a compiled source added. -/
def Progress.addReport (p : Progress) (report : Report) : Progress :=
  ⟨report.emitter, p.code ++ report.code, p.log ++ report.log⟩

/-- The contents of an opened source. A directory can be opened and cannot be read. -/
def contents (p : Progress) (output location : Location) :
    Node → Except SystemError Text.Bytes
  | .directory => .error .isDirectory
  | .device => .ok []
  | .file bytes => .ok (if location = output then passedOn p.code else bytes)

/-- Compiles the source at a path. Its name has to be a text, since it stands in the code. -/
def compileFile (t : FileTree) (output : Location) (outputPath : Text.Bytes) (p : Progress)
    (path : Text.Bytes) : Progress × Option Error :=
  match (Path.stem? path).bind Text.text? with
  | none => (p, some (.wrongExtension path))
  | some name =>
    let p := p.say .info ("translating " ++ Text.shown path)
    match t.resolve path with
    | .error error => (p, some (.access path (.system error)))
    | .ok (location, node) =>
      let report := compileSource p.emitter name (contents p output location node) none path
        outputPath
      let p := p.addReport report
      match report.error with
      | some error => (p, some error)
      | none =>
        (p.say .debug ("last function after " ++ name ++ ": " ++
          Text.quote p.emitter.function), none)

/-- Compiles the sources at paths in order, up to the first error. -/
def compileFiles (t : FileTree) (output : Location) (outputPath : Text.Bytes) (p : Progress) :
    List Text.Bytes → Progress × Option Error
  | [] => (p, none)
  | path :: rest =>
    match compileFile t output outputPath p path with
    | (p, some error) => (p, some error)
    | (p, none) => compileFiles t output outputPath p rest

/-! ### Runs -/

/-- What a run came to. -/
structure Outcome where
  /-- The files afterwards. -/
  tree : FileTree
  /-- The messages of all levels, in order. -/
  log : List LogEntry
  /-- What stopped the run. -/
  error : Option Error

/-- The progress before the first source. -/
def Plan.start (plan : Plan) : Progress :=
  let e : Emitter := { annotate := plan.annotate }
  let log : List LogEntry := match plan.input with
    | .file _ => []
    | .directory path files =>
      [⟨.info, toString files.length ++ " source files in " ++ Text.shown path⟩]
  if plan.bootstrap then ⟨e.afterBootstrap, e.bootstrap, log⟩ else ⟨e, [], log⟩

/-- Carries out a plan. -/
def run (t : FileTree) (plan : Plan) : Outcome :=
  match t.openForWriting plan.output with
  | .error error => ⟨t, [], some (.access plan.output (.system error))⟩
  | .ok output =>
    let (p, error) := compileFiles (t.write output []) output plan.output plan.start
      plan.input.files
    let p := if error.isNone then p.say .info ("wrote " ++ Text.shown plan.output) else p
    ⟨t.write output (Text.encode (Asm.render p.code)), p.log, error⟩

end HackVM.Job
