import HackVM.Proofs.Codegen.Annotation
import HackVM.Proofs.Job.Source

namespace HackVM

open Asm Codegen Machine

/-!
# Commented output as a record of its source

With comments switched on, each command is written before its code.  This file says that the
commands can be read off the output again, and where the code of each of them starts and ends.

* `newline_not_mem_name` and `newline_not_mem_codeAll` — every line of the code is one line of the
  text, unless a newline comes in with a name;
* `splitOn_render` — so the text, split at its newlines, gives the lines;
* `commentText?` and `cutAtComments` — the comments in a text, and the lines between them;
* `cutAtComments_codeAll` — cutting the code of commands at its comments gives each command with
  its plain code;
* `annotated_output_records_commands` — all of it for the output of a source, and
  `sub_appears_in_record` — a newline in a function's name spoils it.
-/

/-! ### One line each -/

theorem IsName.newline_not_mem {name : String} (h : IsName name) : '\n' ∉ name.toList :=
  fun hmem => absurd (h.2 _ hmem) (by decide)

namespace Asm

/-- The texts in a symbol's name that are not made up by the compiler. -/
def Symbol.givenTexts : Symbol → List String
  | function name => [name]
  | localLabel owner label => [owner, label]
  | static file _ => [file]
  | _ => []

/-- A newline in the name of a symbol comes in with a given text. -/
theorem newline_not_mem_name {s : Symbol} (h : ∀ text ∈ s.givenTexts, '\n' ∉ text.toList) :
    '\n' ∉ s.name.toList := by
  cases s with
  | register r => cases r <;> decide
  | comparisonHolds number => exact (isName_comparisonHolds number).newline_not_mem
  | comparisonEnd number => exact (isName_comparisonEnd number).newline_not_mem
  | returnPoint number => exact (isName_returnPoint number).newline_not_mem
  | function name => exact h name List.mem_cons_self
  | localLabel owner label =>
    have howner := h owner (by simp [Symbol.givenTexts])
    have hlabel := h label (by simp [Symbol.givenTexts])
    simp [toList_localLabel, howner, hlabel]
  | static file index =>
    have hfile := h file List.mem_cons_self
    have hindex := not_mem_decimal (c := '\n') (by decide) index.toNat
    simp [toList_static, hfile, hindex]

/-- A newline in a line comes in with a comment or with a given text. -/
theorem newline_not_mem_line {line : Line}
    (hcomment : ∀ text, line = .comment text → '\n' ∉ text.toList)
    (hsymbol : ∀ s, line = .label s ∨ line = .symbol s →
      ∀ text ∈ s.givenTexts, '\n' ∉ text.toList) : '\n' ∉ line.render.toList := by
  cases line with
  | comment text => simp [Line.render, hcomment text rfl]
  | label s => simp [Line.render, newline_not_mem_name (hsymbol s (.inl rfl))]
  | number n =>
    rw [render_number]
    simpa using not_mem_decimal (by decide) n
  | symbol s =>
    rw [render_symbol]
    simpa using newline_not_mem_name (hsymbol s (.inr rfl))
  | compute dest comp jump =>
    rw [Line.render, String.toList_ofList]
    exact fun hmem => absurd (mem_spellCompute hmem) (by decide)

/-- **The text of lines, split at its newlines**, gives the lines, and nothing after the last
    newline. -/
theorem splitOn_render {lines : List Line} (h : ∀ line ∈ lines, '\n' ∉ line.render.toList) :
    (render lines).toList.splitOn '\n' =
      lines.map (fun line => line.render.toList) ++ [[]] := by
  induction lines with
  | nil => rfl
  | cons line lines ih =>
    rw [List.forall_mem_cons] at h
    have htext : (render (line :: lines)).toList =
        line.render.toList ++ '\n' :: (render lines).toList := by
      simp [render]
    rw [htext, List.splitOn_append_cons_self_of_not_mem h.1, ih h.2]
    rfl

end Asm

namespace Codegen

theorem givenTexts_of_isGenerated {s : Symbol} (h : s.isGenerated = true) : s.givenTexts = [] := by
  cases s with
  | comparisonHolds | comparisonEnd | returnPoint => rfl
  | register | function | localLabel | static => exact absurd h Bool.false_ne_true

/-- The texts in the symbols of a command are the name of the function, that of the file, and names
    that can be read. -/
theorem givenText_cases {e : Emitter} {file : String} {c : Command} (hfits : c.Fits) {s : Symbol}
    (hs : s ∈ e.defines c ∨ s ∈ e.refers file c) {text : String} (htext : text ∈ s.givenTexts) :
    text = e.function ∨ text = file ∨ IsName text := by
  cases c with
  | push segment index | pop segment index =>
    cases segment <;> simp [Emitter.defines, Emitter.refers] at hs
    subst hs
    exact .inr (.inl (List.mem_singleton.1 htext))
  | operate operator =>
    have hgenerated := isGenerated_of_mem_comparisonSymbols (or_self_iff.1 hs)
    rw [givenTexts_of_isGenerated hgenerated] at htext
    exact absurd htext List.not_mem_nil
  | label name | goto name | ifGoto name =>
    obtain rfl : s = .localLabel e.function name := by
      simpa [Emitter.defines, Emitter.refers] using hs
    rcases List.mem_pair.1 htext with rfl | rfl
    · exact .inl rfl
    · exact .inr (.inr hfits)
  | function name locals =>
    obtain rfl : s = .function name := by simpa [Emitter.defines, Emitter.refers] using hs
    rw [List.mem_singleton.1 htext]
    exact .inr (.inr hfits)
  | call name arguments =>
    have hcases : s = .returnPoint (e.calls + 1) ∨ s = .function name := by
      simpa [Emitter.defines, Emitter.refers] using hs
    rcases hcases with rfl | rfl
    · exact absurd htext List.not_mem_nil
    · rw [List.mem_singleton.1 htext]
      exact .inr (.inr hfits)
  | ret => simp [Emitter.defines, Emitter.refers] at hs

/-- A function that can be declared has no newline in its name. -/
theorem newline_not_mem_function_after {e : Emitter} (howner : '\n' ∉ e.function.toList)
    {c : Command} (hfits : c.Fits) : '\n' ∉ (e.after c).function.toList := by
  rw [function_after]
  cases c with
  | function name locals => exact IsName.newline_not_mem hfits
  | push | pop | operate | label | goto | ifGoto | call | ret => exact howner

/-- **No run with commands that can be read** brings a newline into the name of the function. -/
theorem newline_not_mem_function_followAll {e : Emitter} (howner : '\n' ∉ e.function.toList)
    {actions : List Action} (h : ∀ action ∈ actions, action.Accepted) :
    '\n' ∉ (e.followAll actions).function.toList := by
  induction actions generalizing e with
  | nil => exact howner
  | cons action actions ih =>
    rw [List.forall_mem_cons] at h
    refine ih (e := e.follow action) ?_ h.2
    cases action with
    | bootstrap | annotate on => exact howner
    | compile file c => exact newline_not_mem_function_after howner (Command.Accepted.fits h.1)

/-- The comment for a command that can be read is one line. -/
theorem newline_not_mem_note {e : Emitter} {c : Command} (hfits : c.Fits) :
    ∀ line ∈ e.note c.render, '\n' ∉ line.render.toList := by
  intro line hline
  unfold Emitter.note at hline
  split at hline
  · rw [List.mem_singleton.1 hline]
    simp [Line.render, newline_not_mem_render hfits]
  · exact absurd hline List.not_mem_nil

section OneLine

variable {e : Emitter} {file : String} (hfile : '\n' ∉ file.toList)

include hfile

/-- Every line in the code of a command that can be read is one line. -/
theorem newline_not_mem_body (howner : '\n' ∉ e.function.toList) {c : Command} (hfits : c.Fits) :
    ∀ line ∈ e.body file c, '\n' ∉ line.render.toList := by
  intro line hline
  refine newline_not_mem_line ?_ ?_
  · rintro text rfl
    rw [← uncommented_body] at hline
    exact absurd (List.mem_filter.1 hline).2 Bool.false_ne_true
  · intro s hs text htext
    -- Registers aside, the line's symbol is one that the command defines or refers to.
    have hcases : s.givenTexts = [] ∨ s ∈ e.defines c ∨ s ∈ e.refers file c := by
      rcases hs with rfl | rfl
      · rw [← definitions_body e file c]
        exact .inr (.inl (mem_definitions.2 hline))
      · by_cases hfamily : s.family = .predefined
        · cases s with
          | register r => exact .inl rfl
          | comparisonHolds | comparisonEnd | returnPoint | function | localLabel | static =>
            cases hfamily
        · rw [← foreignReferences_body]
          exact .inr (.inr (mem_foreignReferences.2 ⟨mem_references.2 hline, hfamily⟩))
    rcases hcases with hnil | hs
    · rw [hnil] at htext
      exact absurd htext List.not_mem_nil
    · rcases givenText_cases hfits hs htext with rfl | rfl | hname
      · exact howner
      · exact hfile
      · exact hname.newline_not_mem

/-- **Every line of the code of commands that can be read is one line**, with comments or
    without. -/
theorem newline_not_mem_codeAll (howner : '\n' ∉ e.function.toList) {commands : List Command}
    (hfits : ∀ c ∈ commands, c.Fits) :
    ∀ line ∈ e.codeAll file commands, '\n' ∉ line.render.toList := by
  induction commands generalizing e with
  | nil => exact fun line hline => absurd hline List.not_mem_nil
  | cons c commands ih =>
    rw [List.forall_mem_cons] at hfits
    intro line hline
    rw [Emitter.codeAll, Emitter.code, List.mem_append, List.mem_append] at hline
    rcases hline with (hline | hline) | hline
    · exact newline_not_mem_note hfits.1 line hline
    · exact newline_not_mem_body hfile howner hfits.1 line hline
    · exact ih (newline_not_mem_function_after howner hfits.1) hfits.2 line hline

end OneLine

end Codegen

namespace Job

/-! ### Comments -/

/-- What a line says as a comment: the text after `// `, if it starts with that. -/
def commentText? (line : List Char) : Option (List Char) :=
  if "// ".toList <+: line then some (line.drop 3) else none

/-- Lines, cut before each comment: the lines before the first one, and each comment with the lines
    after it. -/
def cutAtComments : List (List Char) → List (List Char) × List (List Char × List (List Char))
  | [] => ([], [])
  | line :: lines =>
    match commentText? line with
    | some text => ([], (text, (cutAtComments lines).1) :: (cutAtComments lines).2)
    | none => (line :: (cutAtComments lines).1, (cutAtComments lines).2)

theorem cutAtComments_cons_comment {line text : List Char} (h : commentText? line = some text)
    (lines : List (List Char)) :
    cutAtComments (line :: lines) =
      ([], (text, (cutAtComments lines).1) :: (cutAtComments lines).2) := by
  rw [cutAtComments, h]

/-- Lines without a comment go before the first one. -/
theorem cutAtComments_append {plain : List (List Char)}
    (h : ∀ line ∈ plain, commentText? line = none) (lines : List (List Char)) :
    cutAtComments (plain ++ lines) =
      (plain ++ (cutAtComments lines).1, (cutAtComments lines).2) := by
  induction plain with
  | nil => rfl
  | cons line plain ih =>
    rw [List.forall_mem_cons] at h
    rw [List.cons_append, cutAtComments, h.1, ih h.2]
    rfl

/-- The comments are where lines are cut. -/
theorem filterMap_commentText? (lines : List (List Char)) :
    lines.filterMap commentText? = (cutAtComments lines).2.map Prod.fst := by
  induction lines with
  | nil => rfl
  | cons line lines ih =>
    rw [List.filterMap_cons, cutAtComments]
    cases commentText? line with
    | none => exact ih
    | some text => exact congrArg (text :: ·) ih

theorem commentText?_comment (text : String) :
    commentText? (Line.comment text).render.toList = some text.toList := by
  have htext : (Line.comment text).render.toList = "// ".toList ++ text.toList := by
    simp [Line.render]
  rw [commentText?, htext, if_pos (List.prefix_append _ _)]
  rfl

theorem commentText?_of_not_isComment {line : Line} (h : line.isComment = false) :
    commentText? line.render.toList = none := by
  refine if_neg fun hstart => ?_
  have hslashes : IsCommentText line.render := (List.prefix_append "//".toList [' ']).trans hstart
  rw [isCommentText_render, h] at hslashes
  exact Bool.false_ne_true hslashes

/-! ### Commented code -/

theorem map_command_blocks (e : Emitter) (file : String) (commands : List (Nat × Command)) :
    (blocks e file commands).map Block.command = commands.map Prod.snd := by
  induction commands generalizing e with
  | nil => rfl
  | cons numbered rest ih => rw [blocks, List.map_cons, ih, List.map_cons]

/-- The instructions and labels of a command are no comments. -/
theorem commentText?_body {e : Emitter} {file : String} {c : Command} :
    ∀ line ∈ (e.body file c).map fun line => line.render.toList, commentText? line = none := by
  intro text htext
  obtain ⟨line, hline, rfl⟩ := List.mem_map.1 htext
  rw [← uncommented_body] at hline
  exact commentText?_of_not_isComment (by simpa using (List.mem_filter.1 hline).2)

/-- **Commented code, cut at its comments**, gives each command with its plain code. -/
theorem cutAtComments_codeAll {e : Emitter} (h : e.annotate = true) (file : String)
    (commands : List (Nat × Command)) :
    cutAtComments ((e.codeAll file (commands.map Prod.snd)).map fun line => line.render.toList) =
      ([], (blocks e.plain file commands).map fun b =>
        (b.command.render.toList, b.code.map fun line => line.render.toList)) := by
  induction commands generalizing e with
  | nil => rfl
  | cons numbered rest ih =>
    obtain ⟨number, c⟩ := numbered
    have hcode : e.code file c = .comment c.render :: e.body file c := by
      rw [Emitter.code, Emitter.note, h]
      rfl
    have hplain : (e.after c).plain = e.plain.after c := e.plain_follow (.compile file c)
    have hrest := ih ((e.annotate_after c).trans h)
    rw [hplain] at hrest
    rw [List.map_cons, Emitter.codeAll, hcode, List.cons_append, List.map_cons, List.map_append,
      cutAtComments_cons_comment (commentText?_comment c.render),
      cutAtComments_append commentText?_body, hrest, List.append_nil]
    rfl

/-! ### Sources -/

/-- Blocks that do not overflow the output are delivered whole. -/
theorem deliver_of_not_overflow {room : Option Nat} {blocks : List Block}
    (h : (deliver room blocks).overflow = false) :
    (deliver room blocks).bytes = blocks.flatMap blockBytes ∧
      (deliver room blocks).begun = blocks := by
  induction blocks generalizing room with
  | nil => exact ⟨rfl, rfl⟩
  | cons b blocks ih =>
    unfold deliver at h ⊢
    dsimp only at h ⊢
    split_ifs at h ⊢ with hfits
    obtain ⟨hbytes, hbegun⟩ := ih h
    exact ⟨by rw [hbytes, List.flatMap_cons], by rw [hbegun]⟩

/-- A source that is compiled without an error has none, and its code is delivered whole. -/
theorem compileSource_of_error_eq_none {e : Emitter} {name : String} {source : Text.Bytes}
    {room : Option Nat} {sourcePath outputPath : Text.Bytes}
    (h : (compileSource e name (.ok source) room sourcePath outputPath).error = none) :
    let commands := (Outline.of (.ok source)).commands.map Prod.snd
    let report := compileSource e name (.ok source) room sourcePath outputPath
    (Outline.of (.ok source)).error = none ∧
      report.bytes = Text.encode (render (e.codeAll name commands)) ∧
      report.code = e.codeAll name commands := by
  unfold compileSource at h ⊢
  dsimp only at h ⊢
  split_ifs at h with hover
  obtain ⟨hbytes, hbegun⟩ := deliver_of_not_overflow (Bool.eq_false_iff.2 hover)
  refine ⟨Option.map_eq_none_iff.1 h, ?_, ?_⟩
  · rw [hbytes, flatMap_blockBytes, flatMap_code_blocks]
  · rw [hbegun, flatMap_code_blocks]

/-- The lines of a source without errors are all legible. -/
theorem legible_of_error_eq_none {source : Text.Bytes}
    (h : (Outline.of (.ok source)).error = none) :
    ∀ line ∈ Text.physicalLines source, Legible line := by
  rcases legible_or_split (Text.physicalLines source) with
    hall | ⟨before, line, after, error, hlines, hbefore, herror⟩
  · exact hall
  · rw [(outline_of_split hlines hbefore herror).1] at h
    exact absurd h (Option.some_ne_none error)

/-- **Commented output is a lossless record of its source.**  No run of a new compiler with commands
    that can be read brings a newline into the name of the function.  Take a compiler with any
    history in which there is none, with comments switched on, a source that it compiles into any
    output without an error, and a name for the source without a newline.  Then

    * the text that is written, split at its newlines, gives the lines of the code and no others;
    * the lines that start with `// `, without these three characters, are read as the commands of
      the source, one each and in order, wherever they stand;
    * before the first of these lines there is none, and the lines after each of them, up to the
      next, are the plain code of its command, that of a compiler that writes no comments. -/
theorem annotated_output_records_commands :
    (∀ actions : List Action, (∀ action ∈ actions, action.Accepted) →
      '\n' ∉ (Emitter.followAll {} actions).function.toList) ∧
    ∀ (e : Emitter) (name : String) (source : Text.Bytes) (room : Option Nat)
      (sourcePath outputPath : Text.Bytes),
      e.annotate = true → '\n' ∉ e.function.toList → '\n' ∉ name.toList →
      let report := compileSource e name (.ok source) room sourcePath outputPath
      report.error = none →
      let commands := sourceCommands source
      let lines := report.code.map fun line => line.render.toList
      let plain := blocks { e with annotate := false } name (Outline.of (.ok source)).commands
      (∃ text, Text.decode? report.bytes = some text ∧ text.splitOn '\n' = lines ++ [[]]) ∧
        (∀ m, (lines.filterMap commentText?).map (Command.ofNumberedLine m) = commands.map .ok) ∧
        plain.map Block.command = commands ∧
        cutAtComments lines =
          ([], plain.map fun b =>
            (b.command.render.toList, b.code.map fun line => line.render.toList)) := by
  refine ⟨fun actions haccepted => newline_not_mem_function_followAll (by decide) haccepted, ?_⟩
  intro e name source room sourcePath outputPath hannotate howner hname report herror commands lines
    plain
  obtain ⟨hnone, hbytes, hcode⟩ := compileSource_of_error_eq_none herror
  have hcommands : (Outline.of (.ok source)).commands.map Prod.snd = commands :=
    (outline_of_legible (legible_of_error_eq_none hnone)).2
  have hfits : ∀ c ∈ commands, c.Fits := fun c hc => fits_of_mem_sourceCommands hc
  have hplain : plain.map Block.command = commands :=
    (map_command_blocks ..).trans hcommands
  have hcut : cutAtComments lines = ([], plain.map fun b =>
      (b.command.render.toList, b.code.map fun line => line.render.toList)) := by
    show cutAtComments (report.code.map _) = _
    rw [hcode, cutAtComments_codeAll hannotate]
    rfl
  refine ⟨⟨(render (e.codeAll name commands)).toList, ?_, ?_⟩, ?_, hplain, hcut⟩
  · show Text.decode? report.bytes = _
    rw [hbytes, hcommands, Text.decode?_encode]
  · show _ = report.code.map _ ++ _
    rw [hcode, hcommands]
    exact splitOn_render (newline_not_mem_codeAll hname howner hfits)
  · intro m
    have hcomments : lines.filterMap commentText? = commands.map fun c => c.render.toList := by
      rw [filterMap_commentText?, hcut, ← hplain, List.map_map, List.map_map]
      rfl
    rw [hcomments, List.map_map]
    apply List.map_congr_left
    intro c hc
    rw [Function.comp_apply, ofNumberedLine_render (hfits c hc)]

/-- A source with a comment, an empty line and leading zeros, in a file whose name looks like a
    comment, compiled after a function and two comparisons. -/
theorem label_to_lt_recorded :
    let e : Emitter := { comparisons := 2, function := "Main.f", annotate := true }
    let source := Text.encode "label x // y\n\n function Main.g 001\npush static 3\r\nlt"
    let report := compileSource e "// a" (.ok source) none "M.vm" "M.asm"
    let lines := report.code.map fun line => line.render.toList
    '\n' ∉ e.function.toList ∧ '\n' ∉ "// a".toList ∧ report.error = none ∧
      (lines.filterMap commentText?).map (Command.ofNumberedLine 7) =
        [.ok (.label "x"), .ok (.function "Main.g" 1), .ok (.push .statics 3),
          .ok (.operate .lt)] ∧
      (cutAtComments lines).2.map (fun part => (part.2.head?, part.2.length)) =
        [(some "(Main.f$x)".toList, 1), (some "(Main.g)".toList, 6), (some "@// a.3".toList, 7),
          (some "@SP".toList, 19)] := by
  intro e source report lines
  have howner : '\n' ∉ e.function.toList := by decide
  have hname : '\n' ∉ "// a".toList := by decide
  have herror : report.error = none := by decide +kernel
  obtain ⟨-, hcomments, -, hcut⟩ :=
    annotated_output_records_commands.2 e "// a" source none "M.vm" "M.asm" rfl howner hname herror
  refine ⟨howner, hname, herror, (hcomments 7).trans ?_, ?_⟩
  · decide +kernel
  · simp only [lines, report] at hcut ⊢
    rw [hcut]
    decide +kernel

/-- After a function with newlines in its name, which the compiler takes and no line can declare,
    one command leaves the record of two. -/
theorem sub_appears_in_record :
    let e : Emitter := { annotate := true, function := "f\n// sub\n" }
    let source := Text.encode "label L\n"
    let report := compileSource e "Main" (.ok source) none "Main.vm" "Main.asm"
    let lines := report.code.map fun line => line.render.toList
    ((({ annotate := true } : Emitter).act (.compile "Main" (.function "f\n// sub\n" 0))).map
        Prod.snd = .ok e) ∧
      report.error = none ∧ sourceCommands source = [.label "L"] ∧
      ∃ text, Text.decode? report.bytes = some text ∧ text.splitOn '\n' ≠ lines ++ [[]] ∧
        ((text.splitOn '\n').filterMap commentText?).map (Command.ofNumberedLine 1) =
          [.ok (.label "L"), .ok (.operate .sub)] := by
  intro e source report lines
  refine ⟨rfl, by decide +kernel, by decide +kernel,
    "// label L\n(f\n// sub\n$L)\n".toList, ?_, ?_, ?_⟩
  · have hbytes : report.bytes = Text.encode "// label L\n(f\n// sub\n$L)\n" := by decide +kernel
    rw [hbytes, Text.decode?_encode]
  · decide +kernel
  · decide +kernel

end Job

end HackVM
