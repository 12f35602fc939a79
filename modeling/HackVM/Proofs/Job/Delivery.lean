import HackVM.Proofs.Job.Source

namespace HackVM.Job

open Codegen

/-!
# Output with too little room

Reading a source, compiling its commands and writing their code take turns, one command after the
other, and each of them can end it: a line cannot be read, or the output is full.  This file says
what is in the output then, what is reported, and which commands have left their trace in the
history.

* `Sink` — an output with so much room, that takes what fits of each write and fails when it is
  full, and `Sink.writeAll_eq` — writing all of a text leaves its first bytes;
* `stream` — reading, compiling and writing in turn, line by line of the code;
* `deliver_fits` and `deliver_overflows` — what is delivered, by the size of all the code;
* `stream_eq_deliver` — to do it in turn comes to the same;
* `legibleLines` and `firstError?` — the lines of a source before the first one that cannot be read,
  and what is wrong with that one;
* `limited_output_gets_prefix` — all of it together.
-/

/-! ### Sinks -/

/-- An output that takes only so many bytes. -/
structure Sink where
  /-- The bytes that it took. -/
  taken : Text.Bytes
  /-- The number of bytes that it can still take. -/
  room : Nat

namespace Sink

/-- Takes as many of the bytes as fit, and gives back the others.  A full sink refuses. -/
def write (s : Sink) (bytes : Text.Bytes) : Option (Sink × Text.Bytes) :=
  if s.room = 0 ∧ bytes ≠ [] then none
  else some (⟨s.taken ++ bytes.take s.room, s.room - bytes.length⟩, bytes.drop s.room)

theorem length_lt_of_write {s s' : Sink} {bytes rest : Text.Bytes} (hne : bytes ≠ [])
    (h : s.write bytes = some (s', rest)) : rest.length < bytes.length := by
  unfold write at h
  split_ifs at h with hfull
  obtain ⟨-, rfl⟩ := Prod.mk.inj (Option.some.inj h)
  have hroom : s.room ≠ 0 := fun hzero => hfull ⟨hzero, hne⟩
  have hlength : bytes.length ≠ 0 := mt List.length_eq_zero_iff.1 hne
  rw [List.length_drop]
  omega

/-- Writes until nothing is left or the sink refuses, and says whether everything was taken. -/
def writeAll (s : Sink) (bytes : Text.Bytes) : Sink × Bool :=
  if _ : bytes = [] then (s, true)
  else
    match _ : s.write bytes with
    | none => (s, false)
    | some (s', rest) => s'.writeAll rest
termination_by bytes.length
decreasing_by exact length_lt_of_write ‹_› ‹_›

/-- **Writing all of a text** leaves its first bytes, as many as there is room for. -/
theorem writeAll_eq (s : Sink) (bytes : Text.Bytes) :
    s.writeAll bytes =
      (⟨s.taken ++ bytes.take s.room, s.room - bytes.length⟩, decide (bytes.length ≤ s.room)) := by
  fun_induction writeAll s bytes with
  | case1 s => simp
  | case2 s bytes hne h =>
    -- A sink that refuses is full.
    unfold write at h
    split_ifs at h with hfull
    obtain ⟨taken, room⟩ := s
    obtain ⟨rfl, -⟩ := hfull
    simp [hne]
  | case3 s bytes hne s' rest h ih =>
    unfold write at h
    split_ifs at h
    obtain ⟨rfl, rfl⟩ := Prod.mk.inj (Option.some.inj h)
    rw [ih]
    by_cases hfits : bytes.length ≤ s.room
    · simp [List.drop_eq_nil_of_le hfits, hfits]
    · -- What does not fit finds the sink full.
      have hfull : s.room - bytes.length = 0 := by omega
      have hleft : ¬ bytes.length - s.room ≤ 0 := by omega
      simp [hfull, hfits, hleft]

theorem writeAll_append (s : Sink) (first second : Text.Bytes) :
    s.writeAll (first ++ second) =
      if (s.writeAll first).2 then (s.writeAll first).1.writeAll second else s.writeAll first := by
  simp only [writeAll_eq, List.length_append, List.take_append, decide_eq_true_eq]
  split_ifs with hfits
  · have hall : decide (first.length + second.length ≤ s.room) =
        decide (second.length ≤ s.room - first.length) := by
      rw [decide_eq_decide]
      omega
    rw [List.take_of_length_le hfits, Nat.sub_sub, hall, List.append_assoc]
  · have hnone : s.room - first.length = 0 := by omega
    have hmore : s.room - (first.length + second.length) = 0 := by omega
    have hlong : ¬ first.length + second.length ≤ s.room := by omega
    simp [hnone, hmore, hlong, hfits]

/-- Writes lines until the sink refuses, the newline of each line in a write of its own. -/
def writeLines (s : Sink) : List Asm.Line → Sink × Bool
  | [] => (s, true)
  | line :: lines =>
    let text := s.writeAll (Text.encode line.render)
    if text.2 then
      let ended := text.1.writeAll [Text.newline]
      if ended.2 then ended.1.writeLines lines else ended
    else text

/-- **Writing lines one by one** comes to writing them all at once. -/
theorem writeLines_eq (s : Sink) (lines : List Asm.Line) :
    s.writeLines lines = s.writeAll (Text.encode (Asm.render lines)) := by
  induction lines generalizing s with
  | nil =>
    have hnil : Text.encode (Asm.render []) = [] := rfl
    rw [hnil, writeAll_eq]
    simp [writeLines]
  | cons line lines ih =>
    have hrender : Text.encode (Asm.render (line :: lines)) =
        Text.encode line.render ++ ([Text.newline] ++ Text.encode (Asm.render lines)) := by
      rw [encode_render, List.flatMap_cons, ← encode_render, Text.encode_append,
        Text.encode_newline, List.append_assoc]
    rw [hrender, writeAll_append, writeAll_append]
    simp only [writeLines, ih]

end Sink

/-! ### Delivery with a limit -/

/-- A block that fits is delivered whole, and the others after it. -/
theorem deliver_cons_of_le {b : Block} {room : Nat} (h : (blockBytes b).length ≤ room)
    (blocks : List Block) :
    let delivery := deliver (some (room - (blockBytes b).length)) blocks
    deliver (some room) (b :: blocks) =
      ⟨blockBytes b ++ delivery.bytes, b :: delivery.begun, delivery.room, delivery.overflow⟩ := by
  simp [deliver, h]

/-- A block that does not fit is the last one. -/
theorem deliver_cons_of_lt {b : Block} {room : Nat} (h : room < (blockBytes b).length)
    (blocks : List Block) :
    deliver (some room) (b :: blocks) = ⟨(blockBytes b).take room, [b], some 0, true⟩ := by
  simp [deliver, Nat.not_le.2 h]

/-- Blocks that fit are delivered whole. -/
theorem deliver_fits {blocks : List Block} {room : Nat}
    (h : (blocks.flatMap blockBytes).length ≤ room) :
    deliver (some room) blocks =
      ⟨blocks.flatMap blockBytes, blocks, some (room - (blocks.flatMap blockBytes).length),
        false⟩ := by
  induction blocks generalizing room with
  | nil => rfl
  | cons b blocks ih =>
    rw [List.flatMap_cons, List.length_append] at h
    have hfirst : (blockBytes b).length ≤ room := by omega
    have hrest : (blocks.flatMap blockBytes).length ≤ room - (blockBytes b).length := by omega
    rw [deliver_cons_of_le hfirst, ih hrest]
    simp [Nat.sub_sub]

/-- **Blocks that do not fit** are delivered up to one of them, of which only the first bytes are
    taken: the first at which all that was to be written is more than there was room for. -/
theorem deliver_overflows {blocks : List Block} {room : Nat}
    (h : room < (blocks.flatMap blockBytes).length) :
    ∃ first b rest, blocks = first ++ b :: rest ∧ (first.flatMap blockBytes).length ≤ room ∧
      room < ((first ++ [b]).flatMap blockBytes).length ∧
      deliver (some room) blocks =
        ⟨(blocks.flatMap blockBytes).take room, first ++ [b], some 0, true⟩ := by
  induction blocks generalizing room with
  | nil => simp at h
  | cons b blocks ih =>
    rw [List.flatMap_cons, List.length_append] at h
    by_cases hfirst : (blockBytes b).length ≤ room
    · obtain ⟨first, c, rest, rfl, hfits, hover, hdeliver⟩ :=
        @ih (room - (blockBytes b).length) (by omega)
      refine ⟨b :: first, c, rest, rfl, ?_, ?_, ?_⟩
      · rw [List.flatMap_cons, List.length_append]
        omega
      · rw [List.cons_append, List.flatMap_cons, List.length_append]
        omega
      · rw [deliver_cons_of_le hfirst, hdeliver, List.flatMap_cons, List.take_append,
          List.take_of_length_le hfirst]
        rfl
    · -- The room ends in this block.
      refine ⟨[], b, blocks, rfl, by simp, by simpa using hfirst, ?_⟩
      have hnone : room - (blockBytes b).length = 0 := by omega
      rw [deliver_cons_of_lt (Nat.lt_of_not_le hfirst), List.flatMap_cons, List.take_append, hnone]
      simp

/-! ### Reading, compiling and writing in turn -/

/-- Reads events, compiles each command and writes its code before it goes on to the next, until a
    line cannot be read or the sink refuses. -/
def stream (name : String) (sourcePath outputPath : Text.Bytes) (e : Emitter) (s : Sink) :
    List Event → Sink × Emitter × Option Error
  | [] => (s, e, none)
  | event :: rest =>
    match event.command with
    | .error error => (s, e, some (.source sourcePath error))
    | .ok command =>
      let written := s.writeLines (e.code name command)
      if written.2 then stream name sourcePath outputPath (e.after command) written.1 rest
      else (written.1, e.after command, some (.access outputPath .noRoom))

/-- **To read, compile and write in turn** comes to reading everything first and then delivering the
    code of the commands. -/
theorem stream_eq_deliver (name : String) (sourcePath outputPath : Text.Bytes) (e : Emitter)
    (s : Sink) (events : List Event) :
    let outline := commandsOfEvents events
    let delivery := deliver (some s.room) (blocks e name outline.1)
    stream name sourcePath outputPath e s events =
      (⟨s.taken ++ delivery.bytes, delivery.room.getD 0⟩,
        (delivery.begun.getLast?.map Block.after).getD e,
        if delivery.overflow then some (.access outputPath .noRoom)
        else outline.2.map (.source sourcePath)) := by
  induction events generalizing e s with
  | nil => simp [stream, commandsOfEvents, blocks, deliver]
  | cons event rest ih =>
    cases event with
    | unreadable after => simp [stream, Event.command, commandsOfEvents, blocks, deliver]
    | line number text =>
      cases hread : Command.ofNumberedLine number text with
      | error error => simp [stream, Event.command, commandsOfEvents, hread, blocks, deliver]
      | ok command =>
        let b : Block := ⟨number, command, e.code name command, e.after command⟩
        let outline := commandsOfEvents rest
        have houtline : commandsOfEvents (.line number text :: rest) =
            ((number, command) :: outline.1, outline.2) := by
          simp [commandsOfEvents, hread, outline]
        have hwritten : s.writeLines (e.code name command) =
            (⟨s.taken ++ (blockBytes b).take s.room, s.room - (blockBytes b).length⟩,
              decide ((blockBytes b).length ≤ s.room)) := by
          rw [Sink.writeLines_eq, Sink.writeAll_eq]
          rfl
        have hblocks : blocks e name ((number, command) :: outline.1) =
            b :: blocks (e.after command) name outline.1 := rfl
        simp only [stream, Event.command, hread, hwritten, houtline, hblocks, decide_eq_true_eq]
        by_cases hfits : (blockBytes b).length ≤ s.room
        · rw [if_pos hfits, ih, deliver_cons_of_le hfits, List.take_of_length_le hfits]
          -- The last block is the first one only if no other was begun.
          simp only [List.append_assoc, List.getLast?_cons, Option.map_some, Option.getD_some]
          cases (deliver _ (blocks (e.after command) name outline.1)).begun.getLast? <;> rfl
        · have hfull : s.room - (blockBytes b).length = 0 := by omega
          rw [if_neg hfits, deliver_cons_of_lt (Nat.lt_of_not_le hfits), hfull]
          rfl

/-- Blocks are split where the commands are. -/
theorem exists_commands_of_blocks_eq {e : Emitter} {file : String} {commands : List (Nat × Command)}
    {first rest : List Block} {b : Block} (h : blocks e file commands = first ++ b :: rest) :
    ∃ before c after, commands = before ++ c :: after ∧ blocks e file before = first ∧
      blocks e file (before ++ [c]) = first ++ [b] := by
  induction first generalizing e commands with
  | nil =>
    cases commands with
    | nil => cases h
    | cons c after =>
      obtain ⟨rfl, -⟩ := List.cons.inj h
      exact ⟨[], c, after, rfl, rfl, rfl⟩
  | cons b' first ih =>
    cases commands with
    | nil => cases h
    | cons c' commands =>
      obtain ⟨rfl, hrest⟩ := List.cons.inj h
      obtain ⟨before, c, after, rfl, hbefore, hsnoc⟩ := ih hrest
      refine ⟨c' :: before, c, after, rfl, ?_, ?_⟩
      · rw [blocks, hbefore]
      · rw [List.cons_append, blocks, hsnoc]
        rfl

/-! ### The lines of a source -/

/-- The lines of a source before the first one that cannot be read. -/
def legibleLines (source : Text.Bytes) : List Text.Bytes :=
  (Text.physicalLines source).takeWhile fun line => Legible line

/-- What is wrong with the first line that cannot be read. -/
def firstError? (source : Text.Bytes) : Option SourceError :=
  ((Text.physicalLines source).drop (legibleLines source).length).head?.bind
    (lineError? (legibleLines source).length)

/-- What can be compiled of a source is on its lines before the first error. -/
theorem outline_eq (source : Text.Bytes) :
    (Outline.of (.ok source)).commands.map Prod.snd =
        (legibleLines source).filterMap lineCommand? ∧
      (Outline.of (.ok source)).error = firstError? source := by
  rcases legible_or_split (Text.physicalLines source) with
    hall | ⟨before, line, after, error, hlines, hbefore, herror⟩
  · have hlegible : legibleLines source = Text.physicalLines source := by
      rw [legibleLines, List.takeWhile_eq_self_iff]
      exact fun line hline => decide_eq_true (hall line hline)
    obtain ⟨hnone, hcommands⟩ := outline_of_legible hall
    rw [firstError?, hlegible, List.drop_length]
    exact ⟨hcommands, hnone⟩
  · have hline : ¬ Legible line := by
      rw [← @lineError?_eq_none_iff before.length, herror]
      simp
    have hlegible : legibleLines source = before := by
      rw [legibleLines, hlines, List.takeWhile_append_of_pos]
      · simp [hline]
      · exact fun other hother => decide_eq_true (hbefore other hother)
    obtain ⟨hsome, hcommands⟩ := outline_of_split hlines hbefore herror
    rw [firstError?, hlegible, hlines, List.drop_left]
    exact ⟨hcommands, hsome.trans herror.symm⟩

/-! ### Sources and the room for their code -/

/-- The bytes of the code of commands. -/
def codeBytes (e : Emitter) (name : String) (commands : List Command) : Text.Bytes :=
  Text.encode (Asm.render (e.codeAll name commands))

theorem flatMap_blockBytes_blocks (e : Emitter) (name : String) (numbered : List (Nat × Command)) :
    (blocks e name numbered).flatMap blockBytes = codeBytes e name (numbered.map Prod.snd) := by
  rw [flatMap_blockBytes, flatMap_code_blocks]
  rfl

section Limited

variable (e : Emitter) (name : String) {source : Text.Bytes} {room : Nat}
  (sourcePath outputPath : Text.Bytes)

/-- **With room enough** everything is delivered, and what is reported is the first error of the
    source. -/
theorem compileSource_fits
    (h : (codeBytes e name ((legibleLines source).filterMap lineCommand?)).length ≤ room) :
    let commands := (legibleLines source).filterMap lineCommand?
    let report := compileSource e name (.ok source) (some room) sourcePath outputPath
    report.bytes = codeBytes e name commands ∧ report.emitter = e.afterAll commands ∧
      report.error = (firstError? source).map (.source sourcePath) ∧
      report.room = some (room - (codeBytes e name commands).length) := by
  intro commands report
  obtain ⟨hcommands, herror⟩ := outline_eq source
  rw [← hcommands, ← flatMap_blockBytes_blocks] at h
  have hdeliver := deliver_fits h
  rw [flatMap_blockBytes_blocks, hcommands] at hdeliver
  refine ⟨congrArg Delivery.bytes hdeliver, ?_, ?_, congrArg Delivery.room hdeliver⟩
  · show ((deliver _ _).begun.getLast?.map Block.after).getD e = _
    rw [hdeliver, after_getLast?_blocks, hcommands]
  · show (if (deliver _ _).overflow then _ else _) = _
    rw [hdeliver, herror]
    rfl

/-- **With too little room** as much is delivered as there is room for, and the history ends with
    the command in whose code the room ends. -/
theorem compileSource_overflows
    (h : room < (codeBytes e name ((legibleLines source).filterMap lineCommand?)).length) :
    let commands := (legibleLines source).filterMap lineCommand?
    let report := compileSource e name (.ok source) (some room) sourcePath outputPath
    report.bytes = (codeBytes e name commands).take room ∧
      report.error = some (.access outputPath .noRoom) ∧ report.room = some 0 ∧
      ∃ first c rest, commands = first ++ c :: rest ∧ (codeBytes e name first).length ≤ room ∧
        room < (codeBytes e name (first ++ [c])).length ∧
        report.emitter = e.afterAll (first ++ [c]) := by
  intro commands report
  obtain ⟨hcommands, -⟩ := outline_eq source
  rw [← hcommands, ← flatMap_blockBytes_blocks] at h
  obtain ⟨first, b, rest, hblocks, hfits, hover, hdeliver⟩ := deliver_overflows h
  rw [flatMap_blockBytes_blocks, hcommands] at hdeliver
  obtain ⟨before, c, after, hsplit, rfl, hsnoc⟩ := exists_commands_of_blocks_eq hblocks
  rw [flatMap_blockBytes_blocks] at hfits
  rw [← hsnoc, flatMap_blockBytes_blocks, List.map_append] at hover
  refine ⟨congrArg Delivery.bytes hdeliver, ?_, congrArg Delivery.room hdeliver,
    before.map Prod.snd, c.2, after.map Prod.snd, ?_, hfits, hover, ?_⟩
  · show (if (deliver _ _).overflow then _ else _) = _
    rw [hdeliver]
    rfl
  · show (legibleLines source).filterMap lineCommand? = _
    rw [← hcommands, hsplit, List.map_append, List.map_cons]
  · -- The history is that after the last block begun.
    show ((deliver _ _).begun.getLast?.map Block.after).getD e = _
    rw [hdeliver, ← hsnoc, after_getLast?_blocks, List.map_append]
    rfl

/-- **A limited output gets a prefix of the code, and the report says why it is no more.**  The
    commands before the first line that cannot be read are the ones to compile.  If their code fits,
    the output gets exactly that, the report has the error of that line, if there is one, and the
    history is the one after all of them.  Otherwise the output gets as many first bytes of the code
    as there is room for, the report says that there was no room, and the history ends with the
    first command at which the code exceeds the room.  To read, compile and write one command after
    the other, line by line, into a sink that takes what fits, comes to the same. -/
theorem limited_output_gets_prefix (source : Text.Bytes) (room : Nat) :
    let commands := (legibleLines source).filterMap lineCommand?
    let code := codeBytes e name
    let report := compileSource e name (.ok source) (some room) sourcePath outputPath
    ((code commands).length ≤ room →
        report.bytes = code commands ∧ report.emitter = e.afterAll commands ∧
          report.error = (firstError? source).map (.source sourcePath)) ∧
      (room < (code commands).length →
        report.bytes = (code commands).take room ∧
          report.error = some (.access outputPath .noRoom) ∧
          ∃ first c rest, commands = first ++ c :: rest ∧ (code first).length ≤ room ∧
            room < (code (first ++ [c])).length ∧ report.emitter = e.afterAll (first ++ [c])) ∧
      stream name sourcePath outputPath e ⟨[], room⟩ (events source) =
        (⟨report.bytes, room - report.bytes.length⟩, report.emitter, report.error) := by
  intro commands code report
  have hstream : stream name sourcePath outputPath e ⟨[], room⟩ (events source) =
      (⟨report.bytes, report.room.getD 0⟩, report.emitter, report.error) :=
    stream_eq_deliver ..
  rcases Nat.lt_or_ge room (code commands).length with hlt | hle
  · obtain ⟨hbytes, herror, hroom, hcut⟩ :=
      compileSource_overflows e name sourcePath outputPath hlt
    have hleft : room - report.bytes.length = 0 := by
      rw [hbytes, List.length_take, Nat.min_eq_left hlt.le, Nat.sub_self]
    refine ⟨fun hle => absurd hlt (Nat.not_lt.2 hle), fun _ => ⟨hbytes, herror, hcut⟩, ?_⟩
    rw [hstream, hroom, hleft]
    rfl
  · obtain ⟨hbytes, hemitter, herror, hroom⟩ :=
      compileSource_fits e name sourcePath outputPath hle
    refine ⟨fun _ => ⟨hbytes, hemitter, herror⟩, fun hlt => absurd hlt (Nat.not_lt.2 hle), ?_⟩
    rw [hstream, hroom, hbytes]
    rfl

end Limited

/-- A source with two commands before a line that cannot be read, and one after it. -/
def brokenOff : Text.Bytes :=
  Text.encode "push constant 7 // seven\n\nlt\nfly me\nsub\n"

/-- Output with room for all the code before the bad line gets it, and the line is reported.  With
    forty bytes the room ends within a line of the comparison, which is counted all the same. -/
theorem brokenOff_gets_prefix :
    let code := codeBytes {} "Main" [.push .constant 7, .operate .lt]
    let report := fun room =>
      compileSource {} "Main" (.ok brokenOff) (some room) "Main.vm" "Main.asm"
    code.length = 156 ∧ (report 156).bytes = code ∧
      (report 156).error = some (.source "Main.vm" (.line 4 (.invalid "fly me"))) ∧
      (report 40).bytes = Text.encode "@7\nD=A\n@SP\nA=M\nM=D\n@SP\nM=M+1\n@SP\nM=M-1\nA" ∧
      (report 40).error = some (.access "Main.asm" .noRoom) ∧
      (report 40).emitter.comparisons = 1 := by
  intro code report
  have hcommands : (legibleLines brokenOff).filterMap lineCommand? =
      [.push .constant 7, .operate .lt] := by decide +kernel
  have hlength : code.length = 156 := by decide +kernel
  obtain ⟨hfits, -, -⟩ :=
    limited_output_gets_prefix {} "Main" "Main.vm" "Main.asm" brokenOff 156
  obtain ⟨-, hover, -⟩ :=
    limited_output_gets_prefix {} "Main" "Main.vm" "Main.asm" brokenOff 40
  rw [hcommands] at hfits hover
  obtain ⟨hbytes, -, herror⟩ := hfits hlength.le
  have hmore : 40 < code.length := by omega
  obtain ⟨hbytes', herror', -⟩ := hover hmore
  refine ⟨hlength, hbytes, herror.trans ?_, hbytes'.trans ?_, herror', ?_⟩ <;> decide +kernel

end HackVM.Job
