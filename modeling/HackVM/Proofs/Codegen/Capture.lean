import HackVM.Proofs.Codegen.Numbering

namespace HackVM.Codegen

open Asm Machine

/-!
# Names that capture one another

A function's label is its name, and a label's is the name of its function, a `$` and its own.
Nothing in a name is escaped, so that declarations which are all different can still give two labels
of one name, or a label with a name that is taken.  This file says exactly which ones do.

* `declaredFunctions` and `declaredLabels` — what commands declare, and `WellScoped` — no function
  is declared twice, and no label twice in a function;
* `NoCapture` — the names that may not meet, `noCapture_iff` — for well-scoped commands that is all
  that can go wrong;
* `capturing` — a well-scoped program with every kind of capture;
* `labels_distinct_iff_noCapture` — well-scoped programs assemble exactly if nothing is captured.
-/

/-! ### Declarations -/

/-- The functions that commands declare, in order. -/
def declaredFunctions (commands : List Placed) : List String :=
  commands.filterMap fun c =>
    match c.command with
    | .function name _ => some name
    | _ => none

/-- The labels that commands declare, in order, each after the function that it belongs to. -/
def declaredLabels (commands : List Placed) : List (String × String) :=
  commands.filterMap fun c =>
    match c.command with
    | .label name => some (c.owner, name)
    | _ => none

/-- The name of a label of a function. -/
def scopedName (label : String × String) : String :=
  label.1 ++ "$" ++ label.2

theorem marks_scopedName (label : String × String) : Family.localLabel.Marks (scopedName label) :=
  marks_localLabel label.1 label.2

theorem declaredNames_perm (commands : List Placed) :
    (declaredNames commands).Perm
      (declaredFunctions commands ++ (declaredLabels commands).map scopedName) := by
  induction commands with
  | nil => exact List.Perm.refl _
  | cons c commands ih =>
    obtain ⟨file, owner, command⟩ := c
    cases command with
    | function name locals => exact ih.cons name
    | label name => exact (ih.cons _).trans List.perm_middle.symm
    | push | pop | operate | goto | ifGoto | call | ret => exact ih

/-- No function is declared twice, and no label twice in the same function. -/
structure WellScoped (commands : List Placed) : Prop where
  /-- The functions are distinct. -/
  functions : (declaredFunctions commands).Nodup
  /-- The labels of each function are distinct. -/
  labels : (declaredLabels commands).Nodup

instance (commands : List Placed) : Decidable (WellScoped commands) :=
  decidable_of_iff ((declaredFunctions commands).Nodup ∧ (declaredLabels commands).Nodup)
    ⟨fun h => ⟨h.1, h.2⟩, fun h => ⟨h.functions, h.labels⟩⟩

/-! ### Capture -/

/-- No name of a function or label is that of another one, or of a symbol that is known
    beforehand or generated by so many comparisons and calls. -/
structure NoCapture (commands : List Placed) (comparisons calls : Nat) : Prop where
  /-- No function has the name of a symbol that is known beforehand. -/
  predefined : ∀ name ∈ declaredFunctions commands, name ∉ SymbolTable.predefinedNames
  /-- No function has the name of a comparison's labels. -/
  comparison : ∀ i, 1 ≤ i → i ≤ comparisons →
    "JUMP_TRUE_" ++ toString i ∉ declaredFunctions commands ∧
      "JUMP_END_" ++ toString i ∉ declaredFunctions commands
  /-- No function has the name of a call's label. -/
  call : ∀ i, 1 ≤ i → i ≤ calls → "RETURN_" ++ toString i ∉ declaredFunctions commands
  /-- No function has the name of a label in a function. -/
  function : ∀ label ∈ declaredLabels commands, scopedName label ∉ declaredFunctions commands
  /-- No two labels have the same name. -/
  label : ∀ label ∈ declaredLabels commands, ∀ other ∈ declaredLabels commands,
    scopedName label = scopedName other → label = other

theorem scopedName_not_predefined (label : String × String) :
    scopedName label ∉ SymbolTable.predefinedNames := by
  intro hmem
  exact Family.not_marks (by decide) (marks_predefined hmem) (marks_scopedName label)

theorem name_ne_scopedName {s : Symbol} (hs : s.isGenerated = true) (label : String × String) :
    s.name ≠ scopedName label := by
  intro hname
  exact Family.not_marks (by decide) (marks_generated hs) (hname ▸ marks_scopedName label)

/-- The generated labels keep clear of some names. -/
theorem forall_mem_generatedSymbols {comparisons calls : Nat} {names : List String} :
    (∀ s ∈ generatedSymbols comparisons calls, s.name ∉ names) ↔
      (∀ i, 1 ≤ i → i ≤ comparisons →
        "JUMP_TRUE_" ++ toString i ∉ names ∧ "JUMP_END_" ++ toString i ∉ names) ∧
      ∀ i, 1 ≤ i → i ≤ calls → "RETURN_" ++ toString i ∉ names := by
  have hnot := not_congr (@exists_mem_generatedSymbols comparisons calls names)
  push Not at hnot
  rw [hnot]
  constructor
  · intro h
    exact ⟨fun i hi => (h i hi).1, fun i hi => (h i hi).2⟩
  · exact fun h i hi => ⟨h.1 i hi, h.2 i hi⟩

/-- **In well-scoped commands, names meet only by capture.** -/
theorem noCapture_iff {commands : List Placed} (h : WellScoped commands) (comparisons calls : Nat) :
    ((declaredNames commands).Nodup ∧
        (∀ name ∈ declaredNames commands, name ∉ SymbolTable.predefinedNames) ∧
        ∀ s ∈ generatedSymbols comparisons calls, s.name ∉ declaredNames commands) ↔
      NoCapture commands comparisons calls := by
  have hperm := declaredNames_perm commands
  rw [hperm.nodup_iff, List.nodup_append]
  simp only [hperm.mem_iff, List.mem_append]
  constructor
  · rintro ⟨⟨-, hlabels, hapart⟩, hpredefined, hgenerated⟩
    obtain ⟨hcomparison, hcall⟩ := forall_mem_generatedSymbols.1
      fun s hs hmem => hgenerated s hs (.inl hmem)
    refine ⟨fun name hname => hpredefined name (.inl hname), hcomparison, hcall, ?_, ?_⟩
    · intro label hlabel hmem
      exact hapart _ hmem _ (List.mem_map_of_mem hlabel) rfl
    · intro label hlabel other hother
      exact List.inj_on_of_nodup_map hlabels hlabel hother
  · intro hno
    refine ⟨⟨h.functions, ?_, ?_⟩, ?_, ?_⟩
    · exact h.labels.map_on hno.label
    · intro name hname other hother heq
      obtain ⟨label, hlabel, rfl⟩ := List.mem_map.1 hother
      exact hno.function label hlabel (heq ▸ hname)
    · rintro name (hname | hname)
      · exact hno.predefined name hname
      · obtain ⟨label, -, rfl⟩ := List.mem_map.1 hname
        exact scopedName_not_predefined label
    · rintro s hs (hname | hname)
      · exact forall_mem_generatedSymbols.2 ⟨hno.comparison, hno.call⟩ s hs hname
      · obtain ⟨label, -, heq⟩ := List.mem_map.1 hname
        exact name_ne_scopedName (isGenerated_of_mem hs) label heq.symm

/-! ### Compilations -/

namespace Compilation

variable (k : Compilation)

/-- The number of comparisons of a compilation. -/
def comparisons : Nat :=
  k.actions.countP Action.compares

/-- The number of calls of a compilation, with that of the entry function. -/
def calls : Nat :=
  k.actions.countP Action.calls

variable {k}

theorem namesDeclaredBy_actions : namesDeclaredBy k.actions = declaredNames k.commands := by
  rw [namesDeclaredBy, filterMap_unit?_actions]
  rfl

/-- **The labels of a well-scoped compilation are fresh exactly if nothing is captured.** -/
theorem fresh_iff_noCapture (haccepted : ∀ file ∈ k.files, ∀ c ∈ file.commands, c.Accepted)
    (hscoped : WellScoped k.commands) :
    Fresh .predefined (statements (k.code.map Line.render)) ↔
      NoCapture k.commands k.comparisons k.calls := by
  rw [code_eq_blocksOf, fresh_iff (accepted_actions haccepted), namesDeclaredBy_actions]
  exact noCapture_iff hscoped k.comparisons k.calls

end Compilation

/-- A well-scoped program with every kind of capture: a function with a name that is known
    beforehand, one with the name of a label in another function and one with that of a comparison's
    label, and two labels of different functions with one name. -/
def capturing : Compilation where
  bootstrap := false
  annotate := false
  files := [
    ⟨"Main", [.function "SP" 0, .function "A$B" 0, .label "C", .function "A" 0, .label "B",
      .label "B$C", .function "JUMP_TRUE_1" 0, .operate .eq]⟩]

/-- **Well-scoped programs need not assemble.** -/
theorem capturing_labelTwice :
    (∀ file ∈ capturing.files, ∀ c ∈ file.commands, c.Accepted) ∧ WellScoped capturing.commands ∧
      instructionCount capturing.code ≤ 65535 ∧
      (definitions capturing.code).map Symbol.name =
        ["SP", "A$B", "A$B$C", "A", "A$B", "A$B$C", "JUMP_TRUE_1", "JUMP_TRUE_1", "JUMP_END_1"] ∧
      "SP" ∈ SymbolTable.predefinedNames ∧
      assemble (capturing.code.map Line.render) = .error (.labelTwice "SP") := by
  refine ⟨Compilation.accepted_of_render (by decide +kernel), by decide +kernel, by decide +kernel,
    by decide +kernel, by decide +kernel, ?_⟩
  -- The first label is taken already.
  have hfault : (match assemble (capturing.code.map Line.render) with
      | .error fault => some fault
      | .ok _ => none) = some (.labelTwice "SP") := by
    decide +kernel
  cases hassemble : assemble (capturing.code.map Line.render) with
  | ok p => simp [hassemble] at hfault
  | error fault =>
    rw [hassemble] at hfault
    rw [Option.some.inj hfault]

/-- **Well-scoped programs assemble exactly if nothing is captured.**  Of every compilation of
    commands that can be read, in which no function is declared twice and no label twice in the same
    function, and in which every instruction has an address:

    * the labels of the code are distinct and none is known beforehand exactly if nothing is
      captured;
    * the assembler finds no label twice exactly if nothing is captured. -/
theorem labels_distinct_iff_noCapture (k : Compilation)
    (haccepted : ∀ file ∈ k.files, ∀ c ∈ file.commands, c.Accepted)
    (hscoped : WellScoped k.commands) (hcount : instructionCount k.code ≤ 65535) :
    ((((definitions k.code).map Symbol.name).Nodup ∧
        ∀ s ∈ definitions k.code, s.name ∉ SymbolTable.predefinedNames) ↔
      NoCapture k.commands k.comparisons k.calls) ∧
    ((∀ name, assemble (k.code.map Line.render) ≠ .error (.labelTwice name)) ↔
      NoCapture k.commands k.comparisons k.calls) := by
  rw [← Compilation.fresh_iff_noCapture haccepted hscoped]
  constructor
  · unfold Fresh
    rw [labelNames_statements (Compilation.cleanLabels_of_accepted haccepted)]
    simp only [find?_predefined_eq_none_iff, List.forall_mem_map]
  · rw [← not_iff_not, not_forall]
    simp only [ne_eq, not_not]
    exact assemble_labelTwice_iff
      (addresses_lt_of_instructionCount_le (Compilation.cleanLabels_of_accepted haccepted) hcount)

/-- A program that declares names like those of generated labels, but of numbers that it does not
    come to, and one label in two functions. -/
def nearMisses : Compilation where
  bootstrap := true
  annotate := false
  files := [
    ⟨"Main", [.function "JUMP_TRUE_2" 0, .label "SP", .operate .eq]⟩,
    ⟨"Sys", [.function "RETURN_3" 1, .label "SP", .call "JUMP_TRUE_2" 0]⟩]

theorem nearMisses_noCapture :
    (∀ file ∈ nearMisses.files, ∀ c ∈ file.commands, c.Accepted) ∧
      WellScoped nearMisses.commands ∧ instructionCount nearMisses.code ≤ 65535 ∧
      NoCapture nearMisses.commands 1 2 ∧
      ∀ name, assemble (nearMisses.code.map Line.render) ≠ .error (.labelTwice name) := by
  have haccepted : ∀ file ∈ nearMisses.files, ∀ c ∈ file.commands, c.Accepted :=
    Compilation.accepted_of_render (by decide +kernel)
  have hscoped : WellScoped nearMisses.commands := by decide +kernel
  have hcount : instructionCount nearMisses.code ≤ 65535 := by decide +kernel
  obtain ⟨hlabels, hassembles⟩ :=
    labels_distinct_iff_noCapture nearMisses haccepted hscoped hcount
  have hno : NoCapture nearMisses.commands nearMisses.comparisons nearMisses.calls :=
    hlabels.1 (by decide +kernel)
  exact ⟨haccepted, hscoped, hcount, hno, hassembles.2 hno⟩

end HackVM.Codegen
