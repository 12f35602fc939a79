import HackVM.Job.Delivery
import HackVM.Proofs.Text.Encoding
import HackVM.Proofs.Vm.Lines
import HackVM.Proofs.Vm.Rendering

namespace HackVM.Job

open Codegen

/-!
# Sources and their commands

What compiling a source comes to depends on its commands only.

* `compileSource_unlimited` — what is delivered is the code of the commands, where the output has
  room for everything;
* `sourceCommands` — the commands of a source, line by line, and `written` — the source in which
  commands are written out one a line;
* `sourceCommands_written` — writing commands out and reading them gives the commands;
* `compileSource_depends_on_commands` — a source and its commands, written out, are compiled alike.
-/

/-! ### Delivery without a limit -/

theorem encode_render (lines : List Asm.Line) :
    Text.encode (Asm.render lines) =
      lines.flatMap fun line => Text.encode (line.render ++ "\n") := by
  rw [Asm.render, Text.encode_join, List.flatMap_map]

/-- The bytes of blocks are those of their code. -/
theorem flatMap_blockBytes (blocks : List Block) :
    blocks.flatMap blockBytes = Text.encode (Asm.render (blocks.flatMap Block.code)) := by
  unfold blockBytes
  simp only [encode_render, List.flatMap_assoc]

/-- The last block knows the history after all of them. -/
theorem after_getLast?_blocks (e : Emitter) (file : String) (commands : List (Nat × Command)) :
    ((blocks e file commands).getLast?.map Block.after).getD e =
      e.afterAll (commands.map Prod.snd) := by
  induction commands generalizing e with
  | nil => rfl
  | cons numbered rest ih =>
    rw [blocks, List.getLast?_cons, List.map_cons, Emitter.afterAll_cons, ← ih]
    cases (blocks (e.after numbered.2) file rest).getLast? <;> rfl

/-- **Without a limit the code of the commands before the first error is delivered**, and that error
    is reported. -/
theorem compileSource_unlimited (e : Emitter) (name : String)
    (source : Except SystemError Text.Bytes) (sourcePath outputPath : Text.Bytes) :
    let commands := (Outline.of source).commands.map Prod.snd
    let report := compileSource e name source none sourcePath outputPath
    report.bytes = Text.encode (Asm.render (e.codeAll name commands)) ∧
      report.code = e.codeAll name commands ∧ report.emitter = e.afterAll commands ∧
      report.error = (Outline.of source).error.map (.source sourcePath) := by
  unfold compileSource
  simp only [deliver_none]
  refine ⟨?_, flatMap_code_blocks .., after_getLast?_blocks .., rfl⟩
  rw [flatMap_blockBytes, flatMap_code_blocks]

/-! ### Commands, read and written -/

/-- The commands on the lines of a source. -/
def sourceCommands (source : Text.Bytes) : List Command :=
  (Text.physicalLines source).filterMap lineCommand?

/-- The commands of a source can be written down. -/
theorem fits_of_mem_sourceCommands {source : Text.Bytes} {c : Command}
    (h : c ∈ sourceCommands source) : c.Fits := by
  obtain ⟨line, -, hline⟩ := List.mem_filterMap.1 h
  obtain ⟨text, -, hread⟩ := Option.bind_eq_some_iff.1 hline
  cases hc : Command.ofLine text with
  | error fault => simp [hc, Except.toOption] at hread
  | ok c' =>
    rw [hc] at hread
    obtain rfl : c' = c := Option.some.inj hread
    exact (ofLine_eq_ok_iff.1 hc).fits

/-- The source in which commands are written out, each on a line of its own. -/
def written (commands : List Command) : Text.Bytes :=
  Text.encode (String.join ((commands.map Command.render).map (· ++ "\n")))

section Written

variable {commands : List Command} (h : ∀ c ∈ commands, c.Fits)

include h

/-- Each command is one line. -/
theorem physicalLines_written :
    Text.physicalLines (written commands) =
      commands.map fun c => Text.encode (c.render ++ "\n") := by
  have hlines : ∀ text ∈ commands.map Command.render, '\n' ∉ text.toList := by
    intro text htext
    obtain ⟨c, hc, rfl⟩ := List.mem_map.1 htext
    exact newline_not_mem_render (h c hc)
  rw [written, Text.physicalLines_encode_ended hlines, List.map_map]
  rfl

/-- A line on which a command is written out is read as that command. -/
theorem decode?_line {c : Command} (hc : c ∈ commands) :
    ∃ text, Text.decode? (Text.encode (c.render ++ "\n")) = some text ∧
      Command.ofLine text = .ok c := by
  refine ⟨_, Text.decode?_encode _, ?_⟩
  rw [String.toList_append]
  apply ofLine_render_append (h c hc)
  intro d hd
  rw [List.mem_singleton.1 hd]
  rfl

theorem legible_written : ∀ line ∈ Text.physicalLines (written commands), Legible line := by
  rw [physicalLines_written h]
  intro line hline
  obtain ⟨c, hc, rfl⟩ := List.mem_map.1 hline
  obtain ⟨text, hdecode, hread⟩ := decode?_line h hc
  exact ⟨text, hdecode, .inr ⟨c, hread⟩⟩

/-- **Commands that are written out are read back.** -/
theorem sourceCommands_written : sourceCommands (written commands) = commands := by
  rw [sourceCommands, physicalLines_written h, List.filterMap_map]
  refine (List.filterMap_congr fun c hc => ?_).trans List.filterMap_some
  obtain ⟨text, hdecode, hread⟩ := decode?_line h hc
  show (Text.decode? _).bind _ = some c
  rw [hdecode, Option.bind_some, hread]
  rfl

end Written

/-- A source of legible lines is compiled to the code of its commands. -/
theorem compileSource_of_legible {source : Text.Bytes}
    (h : ∀ line ∈ Text.physicalLines source, Legible line) (e : Emitter)
    (name : String) (sourcePath outputPath : Text.Bytes) :
    let report := compileSource e name (.ok source) none sourcePath outputPath
    report.error = none ∧
      report.bytes = Text.encode (Asm.render (e.codeAll name (sourceCommands source))) ∧
      report.emitter = e.afterAll (sourceCommands source) := by
  obtain ⟨herror, hcommands⟩ := outline_of_legible h
  obtain ⟨hbytes, -, hemitter, herror'⟩ :=
    compileSource_unlimited e name (.ok source) sourcePath outputPath
  rw [hcommands] at hbytes hemitter
  rw [herror] at herror'
  exact ⟨herror', hbytes, hemitter⟩

/-- **Compiling depends on the commands only**, not on how they are spelled.  A source whose lines
    are all legible and the source in which its commands are written out one a line are compiled
    without an error, from any history and with any name, to the same bytes and the same history:
    the code of the commands, and the history with them added. -/
theorem compileSource_depends_on_commands (e : Emitter) (name : String) (source : Text.Bytes)
    (h : ∀ line ∈ Text.physicalLines source, Legible line) (sourcePath outputPath : Text.Bytes) :
    let commands := sourceCommands source
    let report := compileSource e name (.ok source) none sourcePath outputPath
    let report' := compileSource e name (.ok (written commands)) none sourcePath outputPath
    report.error = none ∧ report'.error = none ∧
      report.bytes = report'.bytes ∧ report.emitter = report'.emitter ∧
      report.bytes = Text.encode (Asm.render (e.codeAll name commands)) ∧
      report.emitter = e.afterAll commands := by
  intro commands report report'
  have hfits : ∀ c ∈ commands, c.Fits := fun c hc => fits_of_mem_sourceCommands hc
  obtain ⟨herror, hbytes, hemitter⟩ := compileSource_of_legible h e name sourcePath outputPath
  obtain ⟨herror', hbytes', hemitter'⟩ :=
    compileSource_of_legible (legible_written hfits) e name sourcePath outputPath
  rw [sourceCommands_written hfits] at hbytes' hemitter'
  exact ⟨herror, herror', hbytes.trans hbytes'.symm, hemitter.trans hemitter'.symm, hbytes,
    hemitter⟩

/-- A source with comments, empty lines, tabs, carriage returns and leading zeros, whose last line
    has no newline. -/
def loose : Text.Bytes :=
  Text.encode "// start\r\n\r\n  function\tMain.f   007 // seven\r\npush constant -0\n\t \nlt"

theorem loose_compiled_like_written :
    (∀ line ∈ Text.physicalLines loose, Legible line) ∧
      sourceCommands loose = [.function "Main.f" 7, .push .constant 0, .operate .lt] ∧
      written (sourceCommands loose) =
        Text.encode "function Main.f 7\npush constant 0\nlt\n" ∧
      let e : Emitter := { annotate := true, comparisons := 3 }
      let report := compileSource e "Main" (.ok loose) none "Main.vm" "Main.asm"
      let report' :=
        compileSource e "Main" (.ok (written (sourceCommands loose))) none "Main.vm" "Main.asm"
      report.error = none ∧ report'.error = none ∧ report.bytes = report'.bytes ∧
        report.emitter = report'.emitter ∧ report.emitter.comparisons = 4 := by
  have hlegible : ∀ line ∈ Text.physicalLines loose, Legible line := by decide +kernel
  have hcommands : sourceCommands loose =
      [.function "Main.f" 7, .push .constant 0, .operate .lt] := by decide +kernel
  refine ⟨hlegible, hcommands, ?_, ?_⟩
  · rw [hcommands]
    decide +kernel
  · intro e report report'
    obtain ⟨herror, herror', hbytes, hemitter, -, hafter⟩ :=
      compileSource_depends_on_commands e "Main" loose hlegible "Main.vm" "Main.asm"
    refine ⟨herror, herror', hbytes, hemitter, ?_⟩
    rw [hafter, hcommands]
    rfl

end HackVM.Job
