import HackVM.Proofs.Codegen.Session

namespace HackVM

open Asm

/-!
# What code owes to the history before it

The code of a command depends on what was compiled before it.  This file says how little that is:
the function declared last, and the numbers from which comparisons and calls are counted on.

* `Symbol.shift`, `Line.shift` and `shiftRun` — symbols, lines and runs with something added to the
  numbers of the generated symbols, and to nothing else;
* `body_shift` and `act_shift` — a history with higher numbers gives the same code, shifted by the
  difference, and `perform_shift` — so does a whole run;
* `perform_eq_shift` — a run is the run of a compiler that starts counting anew, shifted;
* `perform_eq_of_function` — where a function is declared first, the one before it is forgotten;
* `history_only_shifts_numbers` — two runs after different histories, and files after other files.
-/

namespace Asm

/-- The symbol with something added to its number, if it is generated. -/
def Symbol.shift (comparisons calls : Nat) : Symbol → Symbol
  | comparisonHolds number => comparisonHolds (comparisons + number)
  | comparisonEnd number => comparisonEnd (comparisons + number)
  | returnPoint number => returnPoint (calls + number)
  | s => s

/-- The line with something added to the number of a generated symbol that it defines or refers
    to. -/
def Line.shift (comparisons calls : Nat) : Line → Line
  | label s => label (s.shift comparisons calls)
  | symbol s => symbol (s.shift comparisons calls)
  | line => line

end Asm

namespace Codegen

/-- The history with as many more comparisons and calls. -/
def Emitter.shift (comparisons calls : Nat) (e : Emitter) : Emitter :=
  { e with comparisons := comparisons + e.comparisons, calls := calls + e.calls }

/-- The blocks of a run and the history after it, shifted. -/
def shiftRun (comparisons calls : Nat) (run : List (List Line) × Emitter) :
    List (List Line) × Emitter :=
  (run.1.map (List.map (Line.shift comparisons calls)), run.2.shift comparisons calls)

/-! ### Blocks -/

namespace Emitter

variable (comparisons calls : Nat) (e : Emitter)

theorem map_shift_functionCode (name : String) (locals : UInt16) :
    (functionCode name locals).map (Line.shift comparisons calls) = functionCode name locals := by
  have hzero : pushZero.map (Line.shift comparisons calls) = pushZero := rfl
  rw [functionCode, List.map_cons, List.map_flatten, List.map_replicate, hzero]
  rfl

/-- **The code of a command** has generated symbols whose numbers follow those of the history, and
    no other trace of them. -/
theorem body_shift (file : String) (c : Command) :
    (e.shift comparisons calls).body file c =
      (e.body file c).map (Line.shift comparisons calls) := by
  cases c with
  | push segment index => cases segment <;> rfl
  | pop segment index => cases segment <;> rfl
  | operate operator => cases operator <;> rfl
  | function name locals => exact (map_shift_functionCode comparisons calls name locals).symm
  | label | goto | ifGoto | call | ret => rfl

theorem note_shift (text : String) :
    (e.shift comparisons calls).note text =
      (e.note text).map (Line.shift comparisons calls) := by
  unfold note
  show (if e.annotate then _ else _) = _
  split <;> rfl

theorem code_shift (file : String) (c : Command) :
    (e.shift comparisons calls).code file c =
      (e.code file c).map (Line.shift comparisons calls) := by
  rw [code, code, note_shift, body_shift, List.map_append]

theorem after_shift (c : Command) :
    (e.shift comparisons calls).after c = (e.after c).shift comparisons calls := by
  cases c with
  | operate operator => cases operator <;> rfl
  | push | pop | label | goto | ifGoto | function | call | ret => rfl

/-- **One action** after a history with higher numbers. -/
theorem act_shift (action : Action) :
    (e.shift comparisons calls).act action =
      (e.act action).map fun result =>
        (result.1.map (Line.shift comparisons calls), result.2.shift comparisons calls) := by
  cases action with
  | bootstrap =>
    have hcall := body_shift comparisons calls e "" (.call entryFunction 0)
    have hblock : (e.shift comparisons calls).bootstrap =
        e.bootstrap.map (Line.shift comparisons calls) := by
      unfold bootstrap
      rw [List.map_append, List.map_append, note_shift]
      exact congrArg (_ ++ stackSetup ++ ·) hcall
    exact congrArg (fun block => Except.ok (block, _)) hblock
  | annotate on => rfl
  | compile file c =>
    show (e.shift comparisons calls).emit file c = (e.emit file c).map _
    unfold emit
    split
    · rfl
    · rw [code_shift, after_shift]
      rfl

/-- **A whole run** after a history with higher numbers. -/
theorem perform_shift (actions : List Action) :
    (e.shift comparisons calls).perform actions =
      (e.perform actions).map (shiftRun comparisons calls) := by
  induction actions generalizing e with
  | nil => rfl
  | cons action actions ih =>
    rw [perform, perform, act_shift]
    cases e.act action with
    | error fault => rfl
    | ok result =>
      show ((result.2.shift comparisons calls).perform actions >>= fun rest =>
        pure (result.1.map (Line.shift comparisons calls) :: rest.1, rest.2)) = _
      rw [ih]
      show _ = (result.2.perform actions >>= fun rest => pure (result.1 :: rest.1, rest.2)).map _
      cases result.2.perform actions <;> rfl

/-! ### Counting anew -/

/-- **A run is that of a compiler that starts counting anew**, shifted by the numbers of the
    history. -/
theorem perform_eq_shift (actions : List Action) :
    e.perform actions =
      (({ function := e.function, annotate := e.annotate } : Emitter).perform actions).map
        (shiftRun e.comparisons e.calls) := by
  rw [← perform_shift]
  rfl

/-- **Where a function is declared first**, the one declared before is forgotten. -/
theorem perform_eq_of_function (owner file name : String) (locals : UInt16)
    (actions : List Action) :
    ({ e with function := owner } : Emitter).perform
        (.compile file (.function name locals) :: actions) =
      e.perform (.compile file (.function name locals) :: actions) :=
  rfl

end Emitter

/-! ### Files -/

/-- Compiles the commands of a file. -/
def SourceFile.actions (file : SourceFile) : List Action :=
  file.commands.map (.compile file.name)

/-- The first command of a file declares a function. -/
def SourceFile.StartsFunction (file : SourceFile) : Prop :=
  ∃ name locals rest, file.commands = .function name locals :: rest

/-- Files do not switch comments on or off. -/
theorem annotate_followAll_files (e : Emitter) (files : List SourceFile) :
    (e.followAll (files.flatMap SourceFile.actions)).annotate = e.annotate := by
  have hall : ∀ action ∈ files.flatMap SourceFile.actions, ∃ file c,
      action = .compile file c := by
    intro action haction
    obtain ⟨file, -, hmem⟩ := List.mem_flatMap.1 haction
    obtain ⟨c, -, rfl⟩ := List.mem_map.1 hmem
    exact ⟨file.name, c, rfl⟩
  generalize files.flatMap SourceFile.actions = actions at hall
  induction actions generalizing e with
  | nil => rfl
  | cons action actions ih =>
    rw [List.forall_mem_cons] at hall
    obtain ⟨⟨file, c, rfl⟩, hrest⟩ := hall
    show ((e.after c).followAll actions).annotate = _
    rw [ih _ hrest, Emitter.annotate_after]

/-- **A history leaves its function and its numbers in the code after it, and nothing else.**

    * After two histories with the same function and the same choice of comments, a run is refused
      for the same reason, or gives the same lines, block by block, but for the numbers of the
      generated symbols that they define and refer to: where these are `i` and `r` in the run of a
      compiler that starts counting anew, they are `comparisons + i` and `calls + r`, with the
      numbers of the one and of the other history.  Names that only look like generated symbols
      stay.
    * For a file that starts with a function it does not even matter which function comes before, so
      whatever files stand before it, and in whatever order, change only these numbers in its
      code. -/
theorem history_only_shifts_numbers :
    (∀ e e' : Emitter, e.function = e'.function → e.annotate = e'.annotate →
      ∀ actions : List Action,
        let anew := ({ function := e.function, annotate := e.annotate } : Emitter).perform actions
        e.perform actions = anew.map (shiftRun e.comparisons e.calls) ∧
          e'.perform actions = anew.map (shiftRun e'.comparisons e'.calls)) ∧
      ∀ (e : Emitter) (file : SourceFile), file.StartsFunction →
        ∀ before before' : List SourceFile,
          let anew := ({ annotate := e.annotate } : Emitter).perform file.actions
          let first := e.followAll (before.flatMap SourceFile.actions)
          let second := e.followAll (before'.flatMap SourceFile.actions)
          first.perform file.actions = anew.map (shiftRun first.comparisons first.calls) ∧
            second.perform file.actions = anew.map (shiftRun second.comparisons second.calls) := by
  refine ⟨?_, ?_⟩
  · intro e e' hfunction hannotate actions anew
    refine ⟨e.perform_eq_shift actions, ?_⟩
    rw [e'.perform_eq_shift actions, ← hfunction, ← hannotate]
  · intro e file hstart before before' anew first second
    have hfiles : ∀ files : List SourceFile,
        let history := e.followAll (files.flatMap SourceFile.actions)
        history.perform file.actions =
          anew.map (shiftRun history.comparisons history.calls) := by
      intro files history
      obtain ⟨name, locals, rest, hcommands⟩ := hstart
      have hactions : file.actions =
          .compile file.name (.function name locals) :: rest.map (.compile file.name) := by
        rw [SourceFile.actions, hcommands, List.map_cons]
      have hannotate : history.annotate = e.annotate := annotate_followAll_files e files
      rw [history.perform_eq_shift, hannotate]
      simp only [anew, hactions]
      exact congrArg _ (Emitter.perform_eq_of_function { annotate := e.annotate } ..)
    exact ⟨hfiles before, hfiles before'⟩

/-- A file that starts with a function, with names that look like generated symbols. -/
def lookalikes : SourceFile :=
  ⟨"Main", [.function "JUMP_TRUE_4" 0, .operate .eq, .goto "RETURN_1", .call "JUMP_END_1" 2]⟩

/-- The numbers of the file's generated symbols follow those of two histories, and those of the
    files before it, while the names that look like them stay. -/
theorem lookalikes_shifted :
    let defined := fun run : Except EmitFault (List (List Line) × Emitter) =>
      run.map fun run => (definitions run.1.flatten).map Symbol.name
    let referred := fun run : Except EmitFault (List (List Line) × Emitter) =>
      run.map fun run => (foreignReferences run.1.flatten).map Symbol.name
    let three : Emitter := { comparisons := 3, calls := 1, function := "F" }
    let seven : Emitter := { calls := 7, function := "F" }
    let compares : SourceFile := ⟨"A", [.operate .lt, .operate .gt, .operate .eq]⟩
    let calls : SourceFile := ⟨"B", [.function "B.f" 1, .call "B.f" 0]⟩
    let after := fun files : List SourceFile =>
      (Emitter.followAll {} (files.flatMap SourceFile.actions)).perform lookalikes.actions
    defined (three.perform lookalikes.actions) =
        .ok ["JUMP_TRUE_4", "JUMP_TRUE_4", "JUMP_END_4", "RETURN_2"] ∧
      defined (seven.perform lookalikes.actions) =
        .ok ["JUMP_TRUE_4", "JUMP_TRUE_1", "JUMP_END_1", "RETURN_8"] ∧
      lookalikes.StartsFunction ∧
      referred (after [compares, calls]) = .ok
        ["JUMP_TRUE_4", "JUMP_END_4", "JUMP_TRUE_4$RETURN_1", "RETURN_2", "JUMP_END_1"] ∧
      referred (after [calls]) = .ok
        ["JUMP_TRUE_1", "JUMP_END_1", "JUMP_TRUE_4$RETURN_1", "RETURN_2", "JUMP_END_1"] := by
  intro defined referred three seven compares calls after
  have hstart : lookalikes.StartsFunction := ⟨_, _, _, rfl⟩
  obtain ⟨hthree, hseven⟩ :=
    history_only_shifts_numbers.1 three seven rfl rfl lookalikes.actions
  obtain ⟨hboth, hone⟩ :=
    history_only_shifts_numbers.2 {} lookalikes hstart [compares, calls] [calls]
  refine ⟨?_, ?_, hstart, ?_, ?_⟩
  · rw [hthree]
    decide +kernel
  · rw [hseven]
    decide +kernel
  · simp only [after, hboth]
    decide +kernel
  · simp only [after, hone]
    decide +kernel

end Codegen

end HackVM
