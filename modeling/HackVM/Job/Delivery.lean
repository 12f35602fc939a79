import HackVM.Codegen.Program
import HackVM.Job.Error
import HackVM.Job.Log

namespace HackVM.Job

open Codegen

/-!
# Compiling one source into an output

The code of a source is delivered block by block to an output that may have room for only so many
bytes. Where the room ends the last bytes that fit are still delivered, and nothing after them.

* `deliver` puts blocks into an output;
* `compileSource` compiles a source, delivers it, and reports what happened.
-/

/-- What became of blocks that were delivered. -/
structure Delivery where
  /-- The bytes that the output took. -/
  bytes : Text.Bytes
  /-- The blocks that were begun; all of them but perhaps the last were taken whole. -/
  begun : List Block
  /-- The room that is left; none if there is no limit. -/
  room : Option Nat
  /-- Whether the output ran out of room. -/
  overflow : Bool

/-- The bytes of a block. -/
def blockBytes (b : Block) : Text.Bytes :=
  Text.encode (Asm.render b.code)

/-- Delivers blocks until the room ends. -/
def deliver (room : Option Nat) : List Block → Delivery
  | [] => ⟨[], [], room, false⟩
  | b :: rest =>
    let bytes := blockBytes b
    if room.all (bytes.length ≤ ·) then
      let delivery := deliver (room.map (· - bytes.length)) rest
      { delivery with bytes := bytes ++ delivery.bytes, begun := b :: delivery.begun }
    else ⟨bytes.take (room.getD 0), [b], some 0, true⟩

/-- Without a limit all blocks are delivered whole. -/
theorem deliver_none (blocks : List Block) :
    deliver none blocks = ⟨blocks.flatMap blockBytes, blocks, none, false⟩ := by
  induction blocks with
  | nil => rfl
  | cons b blocks ih => simp [deliver, ih]

/-! ### Messages -/

/-- The messages for a command of a named source. -/
def blockLog (name : String) (b : Block) : List LogEntry :=
  let seen : LogEntry := ⟨.trace, name ++ ":" ++ toString b.line ++ ": " ++ b.command.kindName ++
    " `" ++ b.command.render ++ "`"⟩
  match b.command with
  | .function function locals =>
    [seen, ⟨.debug, name ++ ": function " ++ function ++ " with " ++ toString locals.toNat ++
      " locals"⟩]
  | _ => [seen]

/-- A command that may be missing, as a log shows it. -/
def quotedCommand : Option Command → String
  | none => "None"
  | some command => "Some(" ++ Text.quote command.render ++ ")"

/-- The message at the end of a named source. -/
def summary (name : String) (lines : Nat) (last : Option Command) : LogEntry :=
  ⟨.debug, name ++ ": translated " ++ toString lines ++ " lines, last command " ++
    quotedCommand last⟩

/-! ### Sources -/

/-- What compiling a source came to. -/
structure Report where
  /-- The bytes that the output took. -/
  bytes : Text.Bytes
  /-- The code that was begun. -/
  code : List Asm.Line
  /-- The messages, in order. -/
  log : List LogEntry
  /-- The history with the commands that were begun added. -/
  emitter : Emitter
  /-- The room that is left in the output. -/
  room : Option Nat
  /-- What stopped it. -/
  error : Option Error

/-- Compiles a source with a given name into an output with a given room. The two paths only say
    where an error belongs. -/
def compileSource (e : Emitter) (name : String) (source : Except SystemError Text.Bytes)
    (room : Option Nat) (sourcePath outputPath : Text.Bytes) : Report :=
  let outline := Outline.of source
  let delivery := deliver room (blocks e name outline.commands)
  let error :=
    if delivery.overflow then some (.access outputPath .noRoom)
    else outline.error.map (.source sourcePath)
  { bytes := delivery.bytes
    code := delivery.begun.flatMap Block.code
    log := delivery.begun.flatMap (blockLog name) ++
      (if error.isNone then
        [summary name outline.lineCount (delivery.begun.getLast?.map Block.command)]
      else [])
    emitter := (delivery.begun.getLast?.map Block.after).getD e
    room := delivery.room
    error }

end HackVM.Job
