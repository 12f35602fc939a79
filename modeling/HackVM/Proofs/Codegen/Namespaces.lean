import HackVM.Proofs.Codegen.Capture
import Mathlib.Data.Set.Operations

namespace HackVM.Codegen

open Asm Machine

/-!
# Symbols that stay apart

Functions are usually named after their file, with a point between.  Then the symbols of the five
families never meet, and nothing is captured.

* `Compilation.namesOf` — the names of a family that occur in the code;
* `regular_definitions` and `regular_references` — under the convention, all symbols in the code are
  regular;
* `noCapture_of_conventional` — and nothing is captured;
* `namespaces_apart` — so that the families are disjoint, the program assembles, and its variables
  have addresses of their own.
-/

/-! ### Blocks -/

/-- What a command declares is regular if the functions are conventional, and no variable. -/
theorem regular_defines {e : Emitter} {c : Command} {s : Symbol} (howner : '$' ∉ e.function.toList)
    (hdeclares : ∀ name locals, c = .function name locals → Conventional name)
    (h : s ∈ e.defines c) : s.Regular ∧ s.family ≠ .static := by
  cases c with
  | operate operator =>
    have hs := isGenerated_of_mem_comparisonSymbols h
    refine ⟨Symbol.regular_of_isGenerated hs, ?_⟩
    rw [Symbol.family_of_isGenerated hs]
    decide
  | label name =>
    obtain rfl := List.mem_singleton.1 h
    exact ⟨howner, nofun⟩
  | function name locals =>
    obtain rfl := List.mem_singleton.1 h
    exact ⟨hdeclares name locals rfl, nofun⟩
  | call name arguments =>
    obtain rfl := List.mem_singleton.1 h
    exact ⟨trivial, nofun⟩
  | push | pop | goto | ifGoto | ret => exact absurd h List.not_mem_nil

/-- What a command refers to is regular if functions and files are conventional. -/
theorem regular_refers {e : Emitter} {file : String} {c : Command} {s : Symbol}
    (howner : '$' ∉ e.function.toList) (hfile : '$' ∉ file.toList)
    (hcalls : ∀ name arguments, c = .call name arguments → Conventional name)
    (h : s ∈ e.refers file c) : s.Regular := by
  cases c with
  | push segment index | pop segment index =>
    cases segment <;> simp [Emitter.refers] at h
    subst h
    exact hfile
  | operate operator =>
    exact Symbol.regular_of_isGenerated (isGenerated_of_mem_comparisonSymbols h)
  | goto name | ifGoto name =>
    obtain rfl := List.mem_singleton.1 h
    exact howner
  | call name arguments =>
    rcases List.mem_pair.1 h with rfl | rfl
    · trivial
    · exact hcalls name arguments rfl
  | label | function | ret => exact absurd h List.not_mem_nil

/-- The functions that commands belong to have no `$` in their names. -/
theorem mark_not_mem_follow {e : Emitter} {action : Action} (howner : '$' ∉ e.function.toList)
    (hdeclares : ∀ file name locals,
      action = .compile file (.function name locals) → Conventional name) :
    '$' ∉ (e.follow action).function.toList := by
  cases action with
  | bootstrap | annotate on => exact howner
  | compile file c =>
    show '$' ∉ (e.after c).function.toList
    rw [function_after]
    cases c with
    | function name locals => exact (hdeclares file name locals rfl).mark
    | push | pop | operate | label | goto | ifGoto | call | ret => exact howner

/-! ### Compilations -/

/-- The functions that commands call, in order. -/
def calledFunctions (commands : List Placed) : List String :=
  commands.filterMap fun c =>
    match c.command with
    | .call name _ => some name
    | _ => none

theorem conventional_entryFunction : Conventional entryFunction :=
  conventional_of_getLast? (by decide)

theorem exists_mem_placeUnits {units : List (String × Command)} {file : String} {c : Command}
    (owner : String) (h : (file, c) ∈ units) :
    ∃ owner', ⟨file, owner', c⟩ ∈ placeUnits owner units := by
  induction units generalizing owner with
  | nil => exact absurd h List.not_mem_nil
  | cons unit units ih =>
    rcases List.mem_cons.1 h with rfl | h
    · exact ⟨owner, List.mem_cons_self⟩
    · obtain ⟨owner', hmem⟩ := ih (ownerAfter owner unit.2) h
      exact ⟨owner', List.mem_cons_of_mem _ hmem⟩

/-- A command belongs to a function that is declared, if to any. -/
theorem owner_of_mem_placeUnits {owner : String} {units : List (String × Command)} {c : Placed}
    (h : c ∈ placeUnits owner units) :
    c.owner = owner ∨ c.owner ∈ declaredFunctions (placeUnits owner units) := by
  induction units generalizing owner with
  | nil => exact absurd h List.not_mem_nil
  | cons unit units ih =>
    obtain ⟨file, command⟩ := unit
    rcases List.mem_cons.1 h with rfl | h
    · exact .inl rfl
    · have hrest := ih h
      cases command with
      | function name locals =>
        right
        show c.owner ∈ name :: declaredFunctions _
        rw [List.mem_cons]
        exact hrest
      | push | pop | operate | label | goto | ifGoto | call | ret => exact hrest

namespace Compilation

variable (k : Compilation)

/-- The names of a family that occur in the code; of the symbols that are known beforehand, all. -/
def namesOf : Family → Set String
  | .predefined => {name | name ∈ SymbolTable.predefinedNames}
  | family =>
    {name | ∃ s ∈ definitions k.code ++ references k.code, s.family = family ∧ s.name = name}

variable {k}

theorem exists_mem_commands {file : String} {c : Command} (h : Action.compile file c ∈ k.actions) :
    ∃ owner, ⟨file, owner, c⟩ ∈ k.commands :=
  exists_mem_placeUnits "" (mem_units_of_mem_actions h)

theorem mem_declaredFunctions {file name : String} {locals : UInt16}
    (h : Action.compile file (.function name locals) ∈ k.actions) :
    name ∈ declaredFunctions k.commands := by
  obtain ⟨owner, hmem⟩ := exists_mem_commands h
  exact List.mem_filterMap.2 ⟨_, hmem, rfl⟩

theorem mem_calledFunctions {file name : String} {arguments : UInt16}
    (h : Action.compile file (.call name arguments) ∈ k.actions) :
    name ∈ calledFunctions k.commands := by
  obtain ⟨owner, hmem⟩ := exists_mem_commands h
  exact List.mem_filterMap.2 ⟨_, hmem, rfl⟩

theorem owner_of_mem_declaredLabels {label : String × String}
    (h : label ∈ declaredLabels k.commands) :
    label.1 = "" ∨ label.1 ∈ declaredFunctions k.commands := by
  obtain ⟨⟨file, owner, c⟩, hc, hlabel⟩ := List.mem_filterMap.1 h
  cases c with
  | label name =>
    obtain rfl := Option.some.inj hlabel
    exact owner_of_mem_placeUnits hc
  | push | pop | operate | goto | ifGoto | function | call | ret => simp at hlabel

section Conventional

variable (hdeclared : ∀ name ∈ declaredFunctions k.commands, Conventional name)

include hdeclared

theorem conventional_of_mem_actions {action : Action} (h : action ∈ k.actions) :
    ∀ file name locals, action = .compile file (.function name locals) → Conventional name := by
  rintro file name locals rfl
  exact hdeclared name (mem_declaredFunctions h)

/-- **The labels of the code are regular, and no variables**, if the functions are declared by
    convention. -/
theorem regular_definitions {s : Symbol} (hs : s ∈ definitions k.code) :
    s.Regular ∧ s.family ≠ .static := by
  have hblocks : ∀ block ∈ Emitter.blocksOf {} k.actions, ∀ s ∈ definitions block,
      s.Regular ∧ s.family ≠ .static := by
    refine Emitter.forall_mem_blocksOf (fun e => '$' ∉ e.function.toList) (by simp) ?_
    intro e action haction howner
    have hdeclares := conventional_of_mem_actions hdeclared haction
    refine ⟨?_, mark_not_mem_follow howner hdeclares⟩
    intro s hs
    rw [Emitter.definitions_block] at hs
    cases action with
    | bootstrap =>
      have hcall : s ∈ e.defines (.call entryFunction 0) := hs
      exact regular_defines howner (fun _ _ hc => Command.noConfusion hc) hcall
    | annotate on => exact absurd hs List.not_mem_nil
    | compile file c =>
      exact regular_defines howner (fun name locals hc => hdeclares file name locals (hc ▸ rfl)) hs
  rw [code_eq_blocksOf] at hs
  obtain ⟨block, hblock, hmem⟩ := mem_definitions_flatten.1 hs
  exact hblocks block hblock s hmem

/-- **What the code refers to is regular**, if functions are declared and called by convention and
    the files have no `$` in their names. -/
theorem regular_references (hcalled : ∀ name ∈ calledFunctions k.commands, Conventional name)
    (hfiles : ∀ file ∈ k.files, '$' ∉ file.name.toList) {s : Symbol} (hs : s ∈ references k.code) :
    s.Regular := by
  have hblocks : ∀ block ∈ Emitter.blocksOf {} k.actions, ∀ s ∈ references block, s.Regular := by
    refine Emitter.forall_mem_blocksOf (fun e => '$' ∉ e.function.toList) (by simp) ?_
    intro e action haction howner
    refine ⟨?_, mark_not_mem_follow howner (conventional_of_mem_actions hdeclared haction)⟩
    intro s hs
    rcases Emitter.mem_references_block hs with hfamily | hreferred
    · exact Symbol.regular_of_predefined hfamily
    · cases action with
      | bootstrap =>
        have hcall : s ∈ e.refers "" (.call entryFunction 0) := hreferred
        refine regular_refers howner (by simp) ?_ hcall
        rintro name arguments ⟨⟩
        exact conventional_entryFunction
      | annotate on => exact absurd hreferred List.not_mem_nil
      | compile name c =>
        obtain ⟨file, hfile, rfl, -⟩ := exists_file_of_mem_units (mem_units_of_mem_actions haction)
        refine regular_refers howner (hfiles file hfile) ?_ hreferred
        rintro name arguments rfl
        exact hcalled name (mem_calledFunctions haction)
  rw [code_eq_blocksOf] at hs
  obtain ⟨block, hblock, hmem⟩ := mem_references_flatten.1 hs
  exact hblocks block hblock s hmem

/-- By convention, there is no `$` in the name of a function that labels belong to. -/
theorem mark_not_mem_owner {owner : String}
    (h : owner = "" ∨ owner ∈ declaredFunctions k.commands) : '$' ∉ owner.toList := by
  rcases h with rfl | h
  · simp
  · exact (hdeclared owner h).mark

/-- **By convention, nothing is captured.** -/
theorem noCapture_of_conventional (comparisons calls : Nat) :
    NoCapture k.commands comparisons calls := by
  have hmarks : ∀ name ∈ declaredFunctions k.commands, Family.function.Marks name :=
    fun name hname => (hdeclared name hname).marks
  have hgenerated : ∀ s : Symbol, s.isGenerated = true → s.name ∉ declaredFunctions k.commands := by
    intro s hs hmem
    exact Family.not_marks (by decide) (marks_generated hs) (hmarks _ hmem)
  refine ⟨?_, ?_, ?_, ?_, ?_⟩
  · intro name hname hmem
    exact Family.not_marks (by decide) (marks_predefined hmem) (hmarks name hname)
  · intro i _ _
    exact ⟨hgenerated (.comparisonHolds i) rfl, hgenerated (.comparisonEnd i) rfl⟩
  · intro i _ _
    exact hgenerated (.returnPoint i) rfl
  · intro label _ hmem
    exact Family.not_marks (by decide) (marks_scopedName label) (hmarks _ hmem)
  · intro label hlabel other hother hname
    obtain ⟨howner, hlabel'⟩ :=
      localLabel_inj (mark_not_mem_owner hdeclared (owner_of_mem_declaredLabels hlabel))
        (mark_not_mem_owner hdeclared (owner_of_mem_declaredLabels hother)) hname
    exact Prod.ext howner hlabel'

end Conventional

/-! ### Variables -/

/-- The variable that a command uses, with its file. -/
def usedCell? (c : Placed) : Option (String × UInt16) :=
  match c.command with
  | .push .statics index => some (c.file, indexOf index.toInt)
  | .pop .statics index => some (c.file, index)
  | _ => none

/-- The variables that the commands use. -/
def cells (k : Compilation) : Set (String × UInt16) :=
  {cell | ∃ c ∈ k.commands, usedCell? c = some cell}

/-- The name of a variable of a file. -/
def cellName (cell : String × UInt16) : String :=
  cell.1 ++ "." ++ toString cell.2.toNat

variable {cell : String × UInt16}

theorem mem_refers_of_usedCell? {c : Placed} (h : usedCell? c = some cell) (e : Emitter) :
    .static cell.1 cell.2 ∈ e.refers c.file c.command := by
  obtain ⟨file, owner, command⟩ := c
  cases command with
  | push segment index | pop segment index =>
    cases segment <;> simp [usedCell?] at h
    subst h
    exact List.mem_singleton_self _
  | operate | label | goto | ifGoto | function | call | ret => simp [usedCell?] at h

/-- The code refers to every variable that a command uses. -/
theorem mem_references_of_mem_cells (h : cell ∈ k.cells) :
    .static cell.1 cell.2 ∈ references k.code := by
  obtain ⟨c, hc, hcell⟩ := h
  obtain ⟨i, hi⟩ := List.mem_iff_getElem?.1 hc
  have hrefers := mem_refers_of_usedCell? hcell (k.history i)
  rw [← foreignReferences_body, mem_foreignReferences] at hrefers
  obtain ⟨rest, hsplit⟩ := code_split hi
  rw [hsplit]
  simp only [references_append, List.mem_append]
  exact .inr (.inr (.inl hrefers.1))

theorem exists_file_of_mem_cells (h : cell ∈ k.cells) : ∃ file ∈ k.files, file.name = cell.1 := by
  obtain ⟨c, hc, hcell⟩ := h
  obtain ⟨i, hi⟩ := List.mem_iff_getElem?.1 hc
  obtain ⟨file, hfile, hname, -⟩ :=
    exists_file_of_mem_units (List.mem_of_getElem? (units_of_command hi).1)
  refine ⟨file, hfile, hname.trans ?_⟩
  unfold usedCell? at hcell
  split at hcell <;> simp at hcell <;> rw [← hcell]

/-- **A variable is nowhere defined**, if the functions are declared by convention and its file has
    neither `$` nor `/` in its name. -/
theorem cellName_mem_undefinedNames
    (haccepted : ∀ file ∈ k.files, ∀ c ∈ file.commands, c.Accepted)
    (hdeclared : ∀ name ∈ declaredFunctions k.commands, Conventional name)
    (hmark : '$' ∉ cell.1.toList) (hslash : '/' ∉ cell.1.toList)
    (h : Symbol.static cell.1 cell.2 ∈ references k.code) :
    cellName cell ∈ undefinedNames (statements (k.code.map Line.render)) := by
  have hmarks : Family.static.Marks (cellName cell) :=
    (show (Symbol.static cell.1 cell.2).Regular from hmark).marks
  rw [undefinedNames, List.mem_eraseDups, List.mem_filter, decide_eq_true_iff,
    labelNames_statements (cleanLabels_of_accepted haccepted)]
  refine ⟨?_, ?_, ?_⟩
  · rw [mem_usedNames, statements_eq_filterMap, List.mem_filterMap]
    exact ⟨_, List.mem_map_of_mem (mem_references.1 h),
      statement?_static (Text.not_slashes_infix_of_not_mem hslash) cell.2⟩
  · intro hmem
    obtain ⟨s, hs, hname⟩ := List.mem_map.1 hmem
    obtain ⟨hs, hfamily⟩ := regular_definitions hdeclared hs
    exact Family.not_marks hfamily (hname ▸ hs.marks) hmarks
  · intro hmem
    exact Family.not_marks (by decide) (marks_predefined hmem) hmarks

theorem cellName_injective : Function.Injective cellName := by
  rintro ⟨file, index⟩ ⟨file', index'⟩ hname
  obtain ⟨rfl, rfl⟩ := static_inj hname
  rfl

/-! ### Families -/

/-- A name of a family looks like the family. -/
theorem marks_of_mem_namesOf
    (hregular : ∀ s ∈ definitions k.code ++ references k.code, s.Regular) {family : Family}
    {name : String} (h : name ∈ k.namesOf family) : family.Marks name := by
  cases family with
  | predefined => exact marks_predefined h
  | generated | function | localLabel | static =>
    obtain ⟨s, hs, hfamily, rfl⟩ := h
    exact hfamily ▸ (hregular s hs).marks

theorem namesOf_apart (hregular : ∀ s ∈ definitions k.code ++ references k.code, s.Regular)
    {f g : Family} (hne : f ≠ g) : ∀ name ∈ k.namesOf f, name ∉ k.namesOf g := by
  intro name hf hg
  exact Family.not_marks hne (marks_of_mem_namesOf hregular hf) (marks_of_mem_namesOf hregular hg)

end Compilation

/-- **Under the naming convention, symbols stay apart.**  Of every compilation of commands that can
    be read, in which declared functions have a point and no `$` in their names and do not end in a
    point and digits, and in which files have neither `$` nor `/` in their names:

    * if called functions are named that way too, no two families have a name in common;
    * a label's name tells the function and the label, and a variable's the file and the index;
    * if nothing is declared twice, and there are addresses enough, the program assembles, and the
      variables that it uses have addresses of their own, from 16 on. -/
theorem namespaces_apart (k : Compilation)
    (haccepted : ∀ file ∈ k.files, ∀ c ∈ file.commands, c.Accepted)
    (hdeclared : ∀ name ∈ declaredFunctions k.commands, Conventional name)
    (hfiles : ∀ file ∈ k.files, '$' ∉ file.name.toList ∧ '/' ∉ file.name.toList) :
    ((∀ name ∈ calledFunctions k.commands, Conventional name) →
      ∀ f g : Family, f ≠ g → ∀ name ∈ k.namesOf f, name ∉ k.namesOf g) ∧
    Set.InjOn scopedName {label | label.1 = "" ∨ label.1 ∈ declaredFunctions k.commands} ∧
    Function.Injective Compilation.cellName ∧
    (WellScoped k.commands → instructionCount k.code ≤ 65535 →
      (undefinedNames (statements (k.code.map Line.render))).length ≤ 65000 →
      ∃ p, assemble (k.code.map Line.render) = .ok p ∧
        (∀ cell ∈ k.cells, ∃ a,
          p.symbols.find? (Compilation.cellName cell) = some a ∧ 16 ≤ a.toNat) ∧
        Set.InjOn (fun cell => p.symbols.find? (Compilation.cellName cell)) k.cells) := by
  refine ⟨?_, ?_, Compilation.cellName_injective, ?_⟩
  · intro hcalled f g hne
    apply Compilation.namesOf_apart _ hne
    intro s hs
    rcases List.mem_append.1 hs with hs | hs
    · exact (Compilation.regular_definitions hdeclared hs).1
    · exact Compilation.regular_references hdeclared hcalled (fun file h => (hfiles file h).1) hs
  · rintro ⟨owner, label⟩ howner ⟨owner', label'⟩ howner' hname
    obtain ⟨rfl, rfl⟩ := localLabel_inj (Compilation.mark_not_mem_owner hdeclared howner)
      (Compilation.mark_not_mem_owner hdeclared howner') hname
    rfl
  · intro hscoped hcount hvariables
    have hfresh := (Compilation.fresh_iff_noCapture haccepted hscoped).2
      (Compilation.noCapture_of_conventional hdeclared _ _)
    have hroom : firstVariable + (undefinedNames (statements (k.code.map Line.render))).length <
        addressCount := by
      show 16 + _ < 65536
      omega
    have hfits := addresses_lt_of_instructionCount_le
      (Compilation.cleanLabels_of_accepted haccepted) hcount
    obtain ⟨p, hp, haddress, hapart⟩ := assemble_variables hfits hfresh hroom
    have hundefined : ∀ cell ∈ k.cells, Compilation.cellName cell ∈
        undefinedNames (statements (k.code.map Line.render)) := by
      intro cell hcell
      obtain ⟨file, hfile, hname⟩ := Compilation.exists_file_of_mem_cells hcell
      exact Compilation.cellName_mem_undefinedNames haccepted hdeclared
        (hname ▸ (hfiles file hfile).1) (hname ▸ (hfiles file hfile).2)
        (Compilation.mem_references_of_mem_cells hcell)
    refine ⟨p, hp, fun cell hcell => haddress _ (hundefined cell hcell), ?_⟩
    intro cell hcell other hother heq
    exact Compilation.cellName_injective
      (hapart _ (hundefined cell hcell) _ (hundefined other hother) heq)

/-- Two files, one named like a variable of the other, with labels that have points, digits and `$`
    in their names. -/
def dotted : Compilation where
  bootstrap := true
  annotate := false
  files := [
    ⟨"Main", [.label "Main.run", .function "Main.run" 0, .label "A$1.2", .push .statics 1,
      .pop .statics 0, .goto "A$1.2"]⟩,
    ⟨"Main.1", [.function "Main.1.go" 0, .label "RETURN_1", .push .statics 0, .pop .statics 1,
      .operate .eq, .call "Main.run" 0]⟩]

theorem dotted_apart :
    (∀ file ∈ dotted.files, ∀ c ∈ file.commands, c.Accepted) ∧
      (∀ name ∈ declaredFunctions dotted.commands, Conventional name) ∧
      (∀ file ∈ dotted.files, '$' ∉ file.name.toList ∧ '/' ∉ file.name.toList) ∧
      (∀ f g : Family, f ≠ g → ∀ name ∈ dotted.namesOf f, name ∉ dotted.namesOf g) ∧
      ∃ p, assemble (dotted.code.map Line.render) = .ok p ∧
        p.symbols.find? "Main.1" ≠ p.symbols.find? "Main.1.1" := by
  have haccepted : ∀ file ∈ dotted.files, ∀ c ∈ file.commands, c.Accepted :=
    Compilation.accepted_of_render (by decide +kernel)
  have hdeclared : ∀ name ∈ declaredFunctions dotted.commands, Conventional name := by
    intro name hname
    apply conventional_of_getLast?
    revert name
    decide +kernel
  have hcalled : ∀ name ∈ calledFunctions dotted.commands, Conventional name := by
    intro name hname
    apply conventional_of_getLast?
    revert name
    decide +kernel
  have hfiles : ∀ file ∈ dotted.files, '$' ∉ file.name.toList ∧ '/' ∉ file.name.toList := by
    decide +kernel
  obtain ⟨hnames, -, -, hassembles⟩ := namespaces_apart dotted haccepted hdeclared hfiles
  obtain ⟨p, hp, -, hapart⟩ :=
    hassembles (by decide +kernel) (by decide +kernel) (by decide +kernel)
  refine ⟨haccepted, hdeclared, hfiles, hnames hcalled, p, hp, fun heq => ?_⟩
  have hfirst : ("Main", 1) ∈ dotted.cells :=
    ⟨⟨"Main", "Main.run", .push .statics 1⟩, List.mem_of_getElem? (i := 3) rfl, rfl⟩
  have hsecond : ("Main.1", 1) ∈ dotted.cells :=
    ⟨⟨"Main.1", "Main.1.go", .pop .statics 1⟩, List.mem_of_getElem? (i := 9) rfl, rfl⟩
  exact absurd (hapart hfirst hsecond heq) (by decide)

end HackVM.Codegen
