import HackVM.Proofs.Codegen.Definitions

namespace HackVM.Codegen

open Asm

/-!
# Everything that can be asked of one compiler

A compiler is asked for the start of a program, for the code of commands of any files, and to switch
its comments on and off, in any order and with one history.

* `Action` — what can be asked, and `Emitter.perform` — doing it step by step, one block of lines
  for each action;
* `Action.HasCode` — what the compiler does not refuse, and `perform_of_hasCode` — a run of such
  actions is given by `Emitter.block` and `Emitter.follow`;
* `perform_of_accepted` — commands that can be read always get their code;
* `definitions_block` and `mem_definitions_of_mem_references` — what a block defines, and that it
  refers to no generated symbol but its own;
* `Compilation.actions` — a compilation is such a run.
-/

/-- What can be asked of a compiler. -/
inductive Action where
  /-- Starts a program. -/
  | bootstrap
  /-- Switches comments on or off. -/
  | annotate (on : Bool)
  /-- Compiles a command of a file. -/
  | compile (file : String) (c : Command)
  deriving DecidableEq, Repr

namespace Action

/-- The command that is compiled, with the name of its file. -/
def unit? : Action → Option (String × Command)
  | compile file c => some (file, c)
  | _ => none

/-- A command that is compiled can be read. -/
def Accepted : Action → Prop
  | compile _ c => c.Accepted
  | _ => True

/-- A command that is compiled is not the push of the one constant without a negation. -/
def HasCode : Action → Prop
  | compile _ c => c ≠ .push .constant Int32.minValue
  | _ => True

instance (action : Action) : Decidable action.HasCode :=
  match action with
  | compile _ c => inferInstanceAs (Decidable (c ≠ _))
  | bootstrap | annotate _ => inferInstanceAs (Decidable True)

/-- The constant without a negation cannot be read. -/
theorem Accepted.hasCode {action : Action} (h : action.Accepted) : action.HasCode := by
  cases action with
  | bootstrap | annotate on => trivial
  | compile file c =>
    rintro rfl
    have hrange := (show Command.Accepted _ from h).fits.1
    exact absurd hrange (by decide)

/-- Actions are accepted if what is printed of their commands can be read back. -/
theorem accepted_of_render {actions : List Action}
    (h : ∀ unit ∈ actions.filterMap unit?, Command.ofLine unit.2.render.toList = .ok unit.2) :
    ∀ action ∈ actions, action.Accepted := by
  intro action haction
  cases action with
  | bootstrap | annotate on => trivial
  | compile file c => exact ⟨_, h (file, c) (List.mem_filterMap.2 ⟨_, haction, rfl⟩)⟩

end Action

/-! ### Runs -/

namespace Emitter

/-- The lines that an action gives, and the history after it. -/
def act (e : Emitter) : Action → Except EmitFault (List Line × Emitter)
  | .bootstrap => .ok (e.bootstrap, e.afterBootstrap)
  | .annotate on => .ok ([], { e with annotate := on })
  | .compile file c => e.emit file c

/-- The lines that actions give, one block for each, and the history after all of them. -/
def perform (e : Emitter) : List Action → Except EmitFault (List (List Line) × Emitter)
  | [] => .ok ([], e)
  | action :: actions => do
    let (block, e₁) ← e.act action
    let (blocks, e₂) ← e₁.perform actions
    return (block :: blocks, e₂)

/-- The lines of an action that has some. -/
def block (e : Emitter) : Action → List Line
  | .bootstrap => e.bootstrap
  | .annotate _ => []
  | .compile file c => e.code file c

/-- The history after an action. -/
def follow (e : Emitter) : Action → Emitter
  | .bootstrap => e.afterBootstrap
  | .annotate on => { e with annotate := on }
  | .compile _ c => e.after c

/-- The blocks of actions. -/
def blocksOf (e : Emitter) : List Action → List (List Line)
  | [] => []
  | action :: actions => e.block action :: (e.follow action).blocksOf actions

/-- The history after actions. -/
def followAll (e : Emitter) (actions : List Action) : Emitter :=
  actions.foldl follow e

/-- Commands do not switch comments on or off. -/
theorem annotate_after (e : Emitter) (c : Command) : (e.after c).annotate = e.annotate := by
  cases c with
  | operate operator => cases operator <;> rfl
  | push | pop | label | goto | ifGoto | function | call | ret => rfl

theorem act_of_hasCode (e : Emitter) {action : Action} (h : action.HasCode) :
    e.act action = .ok (e.block action, e.follow action) := by
  cases action with
  | bootstrap | annotate on => rfl
  | compile file c => exact if_neg h

/-- **What is not refused gets its code**, over a run. -/
theorem perform_of_hasCode (e : Emitter) {actions : List Action}
    (h : ∀ action ∈ actions, action.HasCode) :
    e.perform actions = .ok (e.blocksOf actions, e.followAll actions) := by
  induction actions generalizing e with
  | nil => rfl
  | cons action actions ih =>
    rw [List.forall_mem_cons] at h
    simp only [perform, act_of_hasCode e h.1]
    show ((e.follow action).perform actions >>= fun p => pure (e.block action :: p.1, p.2)) = _
    rw [ih (e.follow action) h.2]
    rfl

/-- **Commands that can be read always get their code.** -/
theorem perform_of_accepted (e : Emitter) {actions : List Action}
    (h : ∀ action ∈ actions, action.Accepted) :
    e.perform actions = .ok (e.blocksOf actions, e.followAll actions) :=
  e.perform_of_hasCode fun action haction => (h action haction).hasCode

/-- What holds of the block of each action, as long as the histories before it keep an invariant,
    holds of every block of a run. -/
theorem forall_mem_blocksOf {e : Emitter} {actions : List Action} {P : List Line → Prop}
    (I : Emitter → Prop) (hstart : I e)
    (hstep : ∀ e, ∀ action ∈ actions, I e → P (e.block action) ∧ I (e.follow action)) :
    ∀ block ∈ e.blocksOf actions, P block := by
  induction actions generalizing e with
  | nil => exact fun block hblock => absurd hblock List.not_mem_nil
  | cons action actions ih =>
    obtain ⟨hblock, hnext⟩ := hstep e action List.mem_cons_self hstart
    rw [blocksOf, List.forall_mem_cons]
    exact ⟨hblock, ih hnext fun e action haction => hstep e action (List.mem_cons_of_mem _ haction)⟩

/-! ### Blocks -/

/-- The symbols that an action defines, in order. -/
def defined (e : Emitter) : Action → List Symbol
  | .bootstrap => e.defines (.call entryFunction 0)
  | .annotate _ => []
  | .compile _ c => e.defines c

theorem definitions_note (e : Emitter) (text : String) : definitions (e.note text) = [] := by
  unfold note
  split <;> rfl

theorem references_note (e : Emitter) (text : String) : references (e.note text) = [] := by
  unfold note
  split <;> rfl

theorem definitions_block (e : Emitter) (action : Action) :
    definitions (e.block action) = e.defined action := by
  cases action with
  | bootstrap =>
    show definitions (e.note _ ++ stackSetup ++ e.body "" (.call entryFunction 0)) = _
    rw [definitions_append, definitions_append, definitions_note, definitions_body]
    rfl
  | annotate on => rfl
  | compile file c =>
    show definitions (e.note _ ++ e.body file c) = _
    rw [definitions_append, definitions_note, definitions_body]
    rfl

/-- The symbols other than registers that an action refers to, in order. -/
def referred (e : Emitter) : Action → List Symbol
  | .bootstrap => e.refers "" (.call entryFunction 0)
  | .annotate _ => []
  | .compile file c => e.refers file c

theorem foreignReferences_block (e : Emitter) (action : Action) :
    foreignReferences (e.block action) = e.referred action := by
  cases action with
  | bootstrap =>
    show foreignReferences (e.note _ ++ stackSetup ++ e.body "" (.call entryFunction 0)) = _
    rw [foreignReferences_append, foreignReferences_append, foreignReferences_body,
      foreignReferences, references_note]
    rfl
  | annotate on => rfl
  | compile file c =>
    show foreignReferences (e.note _ ++ e.body file c) = _
    rw [foreignReferences_append, foreignReferences_body, foreignReferences, references_note]
    rfl

/-- What a block refers to is a register, or what its action refers to. -/
theorem mem_references_block {e : Emitter} {action : Action} {s : Symbol}
    (h : s ∈ references (e.block action)) : s.family = .predefined ∨ s ∈ e.referred action := by
  by_cases hs : s.family = .predefined
  · exact .inl hs
  · rw [← foreignReferences_block]
    exact .inr (mem_foreignReferences.2 ⟨h, hs⟩)

/-- **A block refers to no generated symbols but those that it defines.** -/
theorem mem_definitions_of_mem_references {e : Emitter} {action : Action} {s : Symbol}
    (h : s ∈ references (e.block action)) (hs : s.isGenerated = true) :
    s ∈ definitions (e.block action) := by
  have hforeign : s ∈ e.referred action := by
    apply (mem_references_block h).resolve_left
    rw [Symbol.family_of_isGenerated hs]
    decide
  rw [definitions_block]
  cases action with
  | bootstrap =>
    have hcall : s ∈ e.refers "" (.call entryFunction 0) := hforeign
    exact mem_defines_of_mem_refers hcall hs
  | annotate on => exact hforeign
  | compile file c => exact mem_defines_of_mem_refers hforeign hs

end Emitter

/-! ### Compilations -/

namespace Compilation

variable (k : Compilation)

/-- A compilation as a run. -/
def actions : List Action :=
  .annotate k.annotate :: (if k.bootstrap then [.bootstrap] else []) ++
    k.units.map fun unit => .compile unit.1 unit.2

variable {k}

theorem blocksOf_units (e : Emitter) (units : List (String × Command)) :
    (e.blocksOf (units.map fun unit => .compile unit.1 unit.2)).flatten = e.codeUnits units := by
  induction units generalizing e with
  | nil => rfl
  | cons unit units ih =>
    rw [List.map_cons, Emitter.blocksOf, List.flatten_cons, ih]
    rfl

/-- **The code of a compilation is what its run gives.** -/
theorem code_eq_blocksOf : k.code = (Emitter.blocksOf {} k.actions).flatten := by
  rw [code_eq, ← blocksOf_units]
  unfold actions prologue first
  cases k.bootstrap <;> rfl

theorem filterMap_unit?_actions : k.actions.filterMap Action.unit? = k.units := by
  have hunits : (k.units.map fun unit => Action.compile unit.1 unit.2).filterMap Action.unit? =
      k.units := by
    rw [List.filterMap_map]
    exact List.filterMap_some
  unfold actions
  rw [List.filterMap_append, hunits]
  cases k.bootstrap <;> rfl

theorem mem_units_of_mem_actions {name : String} {c : Command}
    (h : Action.compile name c ∈ k.actions) : (name, c) ∈ k.units := by
  rw [← filterMap_unit?_actions]
  exact List.mem_filterMap.2 ⟨_, h, rfl⟩

/-- A command of the row stands in some file. -/
theorem exists_file_of_mem_units {name : String} {c : Command} (h : (name, c) ∈ k.units) :
    ∃ file ∈ k.files, file.name = name ∧ c ∈ file.commands := by
  obtain ⟨file, hfile, hmem⟩ := List.mem_flatMap.1 h
  obtain ⟨c', hc', heq⟩ := List.mem_map.1 hmem
  obtain ⟨rfl, rfl⟩ := Prod.mk.inj heq
  exact ⟨file, hfile, rfl, hc'⟩

theorem accepted_actions (h : ∀ file ∈ k.files, ∀ c ∈ file.commands, c.Accepted) :
    ∀ action ∈ k.actions, action.Accepted := by
  intro action haction
  cases action with
  | bootstrap | annotate on => trivial
  | compile name c =>
    obtain ⟨file, hfile, -, hc⟩ := exists_file_of_mem_units (mem_units_of_mem_actions haction)
    exact h file hfile c hc

/-- A command is accepted if what is printed of it can be read back. -/
theorem accepted_of_render (h : ∀ file ∈ k.files, ∀ c ∈ file.commands,
    Command.ofLine c.render.toList = .ok c) : ∀ file ∈ k.files, ∀ c ∈ file.commands, c.Accepted :=
  fun file hfile c hc => ⟨_, h file hfile c hc⟩

end Compilation

end HackVM.Codegen
