import HackVM.Machine.Cpu
import HackVM.Proofs.Codegen.Session

namespace HackVM.Codegen

open Asm Machine

/-!
# Comments do not matter

A compiler can be told at any time to write each command as a comment before its code.  This file
compares a run in which comments are switched on and off with the same run without comments.

* `uncommented` — lines without the comments among them, and `uncommented_block` — what is left of
  a block is the block of a compiler that writes no comments;
* `uncommented_blocksOf` and `plain_followAll` — the same for whole runs;
* `render_uncommented` — comments are told by their first two characters;
* `statements_uncommented` — the assembler reads nothing in a comment;
* `annotation_keeps_program` — hence the program is the same, and so is every run of it.
-/

/-! ### Without comments -/

/-- The lines that are no comments. -/
def uncommented (lines : List Line) : List Line :=
  lines.filter fun line => !line.isComment

@[simp] theorem uncommented_append (first second : List Line) :
    uncommented (first ++ second) = uncommented first ++ uncommented second :=
  List.filter_append first second

theorem uncommented_flatten (blocks : List (List Line)) :
    uncommented blocks.flatten = (blocks.map uncommented).flatten :=
  List.filter_flatten

/-- The entry of a function and the zeros for its local variables have no comments. -/
theorem uncommented_functionCode (name : String) (locals : UInt16) :
    uncommented (functionCode name locals) = functionCode name locals := by
  have hzeros : ∀ n, uncommented (List.replicate n pushZero).flatten =
      (List.replicate n pushZero).flatten := by
    intro n
    induction n with
    | zero => rfl
    | succ n ih =>
      rw [List.replicate_succ, List.flatten_cons, uncommented_append, ih]
      rfl
  show Line.label (.function name) :: uncommented (List.replicate locals.toNat pushZero).flatten = _
  rw [hzeros]
  rfl

/-- The instructions and labels of a command have no comments among them. -/
theorem uncommented_body (e : Emitter) (file : String) (c : Command) :
    uncommented (e.body file c) = e.body file c := by
  cases c with
  | push segment index => cases segment <;> rfl
  | pop segment index => cases segment <;> rfl
  | operate operator => cases operator <;> rfl
  | function name locals => exact uncommented_functionCode name locals
  | label | goto | ifGoto | call | ret => rfl

namespace Emitter

/-- The history of a compiler that writes no comments. -/
def plain (e : Emitter) : Emitter :=
  { e with annotate := false }

theorem uncommented_note (e : Emitter) (text : String) : uncommented (e.note text) = [] := by
  unfold note
  split <;> rfl

end Emitter

/-- The action, with comments switched off where they are switched. -/
def Action.silent : Action → Action
  | annotate _ => annotate false
  | action => action

theorem Action.HasCode.silent {action : Action} (h : action.HasCode) : action.silent.HasCode := by
  cases action with
  | bootstrap | annotate on => trivial
  | compile file c => exact h

/-! ### Runs -/

namespace Emitter

/-- **One block**: without its comments it is that of a compiler that writes none. -/
theorem uncommented_block (e : Emitter) (action : Action) :
    uncommented (e.block action) = e.plain.block action.silent := by
  cases action with
  | bootstrap =>
    show uncommented (e.note _ ++ stackSetup ++ e.body "" (.call entryFunction 0)) = _
    rw [uncommented_append, uncommented_append, uncommented_note, uncommented_body]
    rfl
  | annotate on => rfl
  | compile file c =>
    show uncommented (e.note _ ++ e.body file c) = _
    rw [uncommented_append, uncommented_note, uncommented_body]
    rfl

theorem plain_follow (e : Emitter) (action : Action) :
    (e.follow action).plain = e.plain.follow action.silent := by
  cases action with
  | bootstrap | annotate on => rfl
  | compile file c =>
    cases c with
    | operate operator => cases operator <;> rfl
    | push | pop | label | goto | ifGoto | function | call | ret => rfl

/-- **All blocks of a run.** -/
theorem uncommented_blocksOf (e : Emitter) (actions : List Action) :
    (e.blocksOf actions).map uncommented = e.plain.blocksOf (actions.map Action.silent) := by
  induction actions generalizing e with
  | nil => rfl
  | cons action actions ih =>
    rw [blocksOf, List.map_cons, uncommented_block, ih, plain_follow]
    rfl

theorem plain_followAll (e : Emitter) (actions : List Action) :
    (e.followAll actions).plain = e.plain.followAll (actions.map Action.silent) := by
  induction actions generalizing e with
  | nil => rfl
  | cons action actions ih =>
    show ((e.follow action).followAll actions).plain = _
    rw [ih, plain_follow]
    rfl

end Emitter

/-! ### The text of a run -/

/-- The text is a comment from its first character on. -/
def IsCommentText (text : String) : Prop :=
  "//".toList <+: text.toList

instance (text : String) : Decidable (IsCommentText text) :=
  inferInstanceAs (Decidable (_ <+: _))

/-- **Comments are told by their first two characters**, whatever names the other lines have. -/
theorem isCommentText_render (line : Line) :
    IsCommentText line.render ↔ line.isComment = true := by
  unfold IsCommentText
  cases line with
  | comment text => simp [Line.render, Line.isComment]
  | label s => simp [Line.render, Line.isComment]
  | number n =>
    rw [render_number]
    simp [Line.isComment]
  | symbol s =>
    rw [render_symbol]
    simp [Line.isComment]
  | compute dest comp jump =>
    -- No slash is among the characters that computations are spelled with.
    have hslash : '/' ∉ spellCompute dest comp jump := by
      intro hmem
      exact absurd (mem_spellCompute hmem) (by decide)
    refine iff_of_false (fun hstart => hslash ?_) Bool.false_ne_true
    have hmem : '/' ∈ (Line.compute dest comp jump).render.toList :=
      hstart.subset List.mem_cons_self
    rwa [Line.render, String.toList_ofList] at hmem

theorem render_uncommented (lines : List Line) :
    (uncommented lines).map Line.render =
      (lines.map Line.render).filter fun text => ¬ IsCommentText text := by
  rw [List.filter_map, uncommented]
  congr 2
  funext line
  simp only [Function.comp_apply, isCommentText_render]
  cases line.isComment <;> rfl

/-- **The assembler reads nothing in a comment.** -/
theorem statements_uncommented (lines : List Line) :
    statements ((uncommented lines).map Line.render) = statements (lines.map Line.render) := by
  rw [statements_eq_filterMap, statements_eq_filterMap]
  induction lines with
  | nil => rfl
  | cons line lines ih =>
    cases line with
    | comment text =>
      rw [List.map_cons, List.filterMap_cons, statement?_comment]
      exact ih
    | label | number | symbol | compute =>
      show (_ :: (uncommented lines).map Line.render).filterMap statement? = _
      rw [List.map_cons, List.filterMap_cons, List.filterMap_cons, ih]

theorem assemble_uncommented (lines : List Line) :
    assemble ((uncommented lines).map Line.render) = assemble (lines.map Line.render) := by
  unfold assemble
  rw [statements_uncommented]

/-- **Annotation never changes the machine program.**  Take a run of a compiler with any history,
    over any files and with any names, in which comments are switched on and off at will, and the
    same run with comments always off.  Both give their code, and

    * the plain lines are the annotated ones without the comments;
    * both compilers end with the same counters and the same function;
    * the assembler refuses both for the same reason, or gives the same instructions and the same
      symbols;
    * so what the machine does is the same, from every state and for any number of steps. -/
theorem annotation_keeps_program (e : Emitter) (actions : List Action)
    (hcode : ∀ action ∈ actions, action.HasCode) :
    ∃ annotated after plain plainAfter,
      e.perform actions = .ok (annotated, after) ∧
      ({ e with annotate := false } : Emitter).perform (actions.map Action.silent) =
        .ok (plain, plainAfter) ∧
      let annotatedText := annotated.flatten.map Line.render
      let plainText := plain.flatten.map Line.render
      (plainText = annotatedText.filter fun text => ¬ IsCommentText text) ∧
      plainAfter = { after with annotate := false } ∧
      assemble annotatedText = assemble plainText ∧
      ∀ program program', assemble annotatedText = .ok program →
        assemble plainText = .ok program' →
        ∀ (steps : Nat) (c : Cpu), c.run program.rom steps = c.run program'.rom steps := by
  have hsilent : ∀ action ∈ actions.map Action.silent, action.HasCode := by
    intro action haction
    obtain ⟨original, horiginal, rfl⟩ := List.mem_map.1 haction
    exact (hcode original horiginal).silent
  refine ⟨_, _, _, _, e.perform_of_hasCode hcode, e.plain.perform_of_hasCode hsilent, ?_⟩
  intro annotatedText plainText
  have hplain : plainText = (uncommented (e.blocksOf actions).flatten).map Line.render := by
    rw [uncommented_flatten, e.uncommented_blocksOf]
  have hassemble : assemble annotatedText = assemble plainText := by
    rw [hplain, assemble_uncommented]
  refine ⟨?_, ?_, hassemble, ?_⟩
  · rw [hplain, render_uncommented]
  · exact (e.plain_followAll actions).symm
  · intro program program' hannotated hplainProgram steps c
    rw [hassemble, hplainProgram] at hannotated
    rw [Except.ok.inj hannotated]

/-- A run that switches comments on, off and on again, over files and names that hold comments and
    newlines themselves. -/
def switching : List Action :=
  [.annotate true, .bootstrap, .compile "Sys" (.function "Sys.init" 1), .annotate false,
    .compile "Sys" (.push .constant (-7)), .annotate true, .compile "a//b" (.pop .statics 3),
    .compile "Main" (.label "x // y\n(z)"), .compile "Main" (.operate .lt)]

theorem switching_keeps_program :
    (∀ action ∈ switching, action.HasCode) ∧
      ∃ annotated after plain plainAfter,
        ({} : Emitter).perform switching = .ok (annotated, after) ∧
        ({} : Emitter).perform (switching.map Action.silent) = .ok (plain, plainAfter) ∧
        (plain.flatten.map Line.render =
          (annotated.flatten.map Line.render).filter fun text => ¬ IsCommentText text) ∧
        annotated.flatten.length = plain.flatten.length + 5 ∧
        plainAfter.comparisons = 1 ∧ plainAfter.calls = 1 ∧ plainAfter.function = "Sys.init" ∧
        assemble (annotated.flatten.map Line.render) =
          assemble (plain.flatten.map Line.render) := by
  have hcode : ∀ action ∈ switching, action.HasCode := by decide
  refine ⟨hcode, ?_⟩
  obtain ⟨annotated, after, plain, plainAfter, hannotated, hplain, htext, hafter, hassemble, -⟩ :=
    annotation_keeps_program {} switching hcode
  refine ⟨annotated, after, plain, plainAfter, hannotated, hplain, htext, ?_⟩
  -- The blocks themselves are known from the run.
  have hsilent : ∀ action ∈ switching.map Action.silent, action.HasCode := by decide
  have hblocks := hannotated.symm.trans (Emitter.perform_of_hasCode {} hcode)
  have hplainBlocks := hplain.symm.trans (Emitter.perform_of_hasCode {} hsilent)
  obtain ⟨rfl, -⟩ := Prod.mk.inj (Except.ok.inj hblocks)
  obtain ⟨rfl, rfl⟩ := Prod.mk.inj (Except.ok.inj hplainBlocks)
  exact ⟨by decide, by decide, by decide, by decide, hassemble⟩

end HackVM.Codegen
