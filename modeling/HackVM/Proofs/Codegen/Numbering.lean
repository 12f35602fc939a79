import HackVM.Proofs.Codegen.Session
import Mathlib.Data.List.Nodup
import Mathlib.Data.List.Perm.Basic

namespace HackVM.Codegen

open Asm Machine

/-!
# The labels of a run

Comparisons and calls are numbered through a whole run, whatever the files.  So the generated labels
of the code are known from the numbers of comparisons and calls alone, and the other labels are what
the commands declare.

* `Numbers` — a counter that numbers the symbols of a family, `Numbers.run` — what it comes to over
  a run;
* `generatedSymbols` — the generated symbols for given numbers of comparisons and calls;
* `declaredNames` — the names of the functions and labels that commands declare;
* `definitions_perm` — the code of a run defines these and no others;
* `fresh_iff` — its labels are fresh exactly if the declared names do not get in each other's way
  or in that of the other symbols;
* `labels_numbered_and_assemble` — both for every run, with what the assembler says.
-/

/-! ### Counters -/

/-- Whether an action is a comparison. -/
def Action.compares : Action → Bool
  | compile _ (.operate operator) => (comparison? operator).isSome
  | _ => false

/-- Whether an action is a call, or the start of a program. -/
def Action.calls : Action → Bool
  | bootstrap | compile _ (.call ..) => true
  | _ => false

/-- A counter goes up by one with each action of a kind, and the symbols of a family that the action
    defines are those of the new number; other actions define none. -/
def Numbers (counter : Emitter → Nat) (counts : Action → Bool) (symbols : Nat → List Symbol)
    (belongs : Symbol → Bool) : Prop :=
  ∀ e action,
    (counts action = true →
      (definitions (e.block action)).filter belongs = symbols (counter e + 1) ∧
        counter (e.follow action) = counter e + 1) ∧
    (counts action = false →
      (definitions (e.block action)).filter belongs = [] ∧
        counter (e.follow action) = counter e)

theorem numbers_comparisons :
    Numbers Emitter.comparisons Action.compares
      (fun n => [.comparisonHolds n, .comparisonEnd n]) Symbol.isComparison := by
  intro e action
  rw [Emitter.definitions_block]
  cases action with
  | bootstrap | annotate on => exact ⟨fun h => absurd h Bool.false_ne_true, fun _ => ⟨rfl, rfl⟩⟩
  | compile file c =>
    cases c with
    | operate operator =>
      cases operator <;>
        simp [Action.compares, Emitter.defined, Emitter.defines, comparisonSymbols, Emitter.follow,
          Emitter.after, comparison?, Symbol.isComparison]
    | push | pop | label | goto | ifGoto | function | call | ret =>
      exact ⟨fun h => absurd h Bool.false_ne_true, fun _ => ⟨rfl, rfl⟩⟩

theorem numbers_calls :
    Numbers Emitter.calls Action.calls (fun n => [.returnPoint n]) Symbol.isReturn := by
  intro e action
  rw [Emitter.definitions_block]
  cases action with
  | bootstrap => exact ⟨fun _ => ⟨rfl, rfl⟩, fun h => absurd h.symm Bool.false_ne_true⟩
  | annotate on => exact ⟨fun h => absurd h Bool.false_ne_true, fun _ => ⟨rfl, rfl⟩⟩
  | compile file c =>
    cases c with
    | operate operator =>
      cases operator <;>
        simp [Action.calls, Emitter.defined, Emitter.defines, comparisonSymbols, Emitter.follow,
          Emitter.after, comparison?, Symbol.isReturn]
    | call => exact ⟨fun _ => ⟨rfl, rfl⟩, fun h => absurd h.symm Bool.false_ne_true⟩
    | push | pop | label | goto | ifGoto | function | ret =>
      exact ⟨fun h => absurd h Bool.false_ne_true, fun _ => ⟨rfl, rfl⟩⟩

/-- **The symbols of a numbered family over a run**: those of consecutive numbers, in order. -/
theorem Numbers.run {counter : Emitter → Nat} {counts : Action → Bool}
    {symbols : Nat → List Symbol} {belongs : Symbol → Bool}
    (h : Numbers counter counts symbols belongs) (e : Emitter) (actions : List Action) :
    (definitions (e.blocksOf actions).flatten).filter belongs =
      (List.range' (counter e + 1) (actions.countP counts)).flatMap symbols := by
  induction actions generalizing e with
  | nil => rfl
  | cons action actions ih =>
    rw [Emitter.blocksOf, List.flatten_cons, definitions_append, List.filter_append, ih]
    by_cases hcounts : counts action = true
    · obtain ⟨hblock, hnext⟩ := (h e action).1 hcounts
      rw [hblock, hnext, List.countP_cons_of_pos hcounts, List.range'_succ, List.flatMap_cons]
    · obtain ⟨hblock, hnext⟩ := (h e action).2 (Bool.eq_false_iff.2 hcounts)
      rw [hblock, hnext, List.countP_cons_of_neg hcounts, List.nil_append]

/-! ### Declared names -/

/-- The name that a command of a function declares. -/
def declaredName? (owner : String) : Command → Option String
  | .function name _ => some name
  | .label name => some (owner ++ "$" ++ name)
  | _ => none

/-- The names of the functions and labels that commands declare, in order. -/
def declaredNames (commands : List Placed) : List String :=
  commands.filterMap fun c => declaredName? c.owner c.command

/-- The symbols that are not generated are the declared ones. -/
theorem map_name_defines (e : Emitter) (c : Command) :
    ((e.defines c).filter fun s => !s.isGenerated).map Symbol.name =
      (declaredName? e.function c).toList := by
  cases c with
  | operate operator => cases operator <;> rfl
  | push | pop | label | goto | ifGoto | function | call | ret => rfl

/-- **What is not generated is declared**, over a run. -/
theorem map_name_definitions_blocksOf (e : Emitter) (actions : List Action) :
    ((definitions (e.blocksOf actions).flatten).filter fun s => !s.isGenerated).map Symbol.name =
      declaredNames (placeUnits e.function (actions.filterMap Action.unit?)) := by
  induction actions generalizing e with
  | nil => rfl
  | cons action actions ih =>
    rw [Emitter.blocksOf, List.flatten_cons, definitions_append, List.filter_append,
      List.map_append, ih, Emitter.definitions_block]
    cases action with
    | bootstrap | annotate on => rfl
    | compile file c =>
      have hunits : (Action.compile file c :: actions).filterMap Action.unit? =
          (file, c) :: actions.filterMap Action.unit? := rfl
      show ((e.defines c).filter fun s => !s.isGenerated).map Symbol.name ++
        declaredNames (placeUnits (e.after c).function _) = _
      rw [map_name_defines, hunits, placeUnits, function_after]
      unfold declaredNames
      rw [List.filterMap_cons]
      cases declaredName? e.function c <;> rfl

/-! ### Generated symbols -/

/-- The symbols that so many comparisons and calls define. -/
def generatedSymbols (comparisons calls : Nat) : List Symbol :=
  (List.range' 1 comparisons).flatMap (fun n => [.comparisonHolds n, .comparisonEnd n]) ++
    (List.range' 1 calls).map .returnPoint

theorem mem_generatedSymbols {comparisons calls : Nat} {s : Symbol} :
    s ∈ generatedSymbols comparisons calls ↔
      ∃ n, 1 ≤ n ∧ (n ≤ comparisons ∧ (s = .comparisonHolds n ∨ s = .comparisonEnd n) ∨
        n ≤ calls ∧ s = .returnPoint n) := by
  simp only [generatedSymbols, List.mem_append, List.mem_flatMap, List.mem_map, List.mem_range'_1,
    List.mem_cons, List.not_mem_nil, or_false]
  constructor
  · rintro (⟨n, hn, hs⟩ | ⟨n, hn, rfl⟩)
    · exact ⟨n, hn.1, .inl ⟨by omega, hs⟩⟩
    · exact ⟨n, hn.1, .inr ⟨by omega, rfl⟩⟩
  · rintro ⟨n, hn, ⟨hle, hs⟩ | ⟨hle, rfl⟩⟩
    · exact .inl ⟨n, by omega, hs⟩
    · exact .inr ⟨n, by omega, rfl⟩

/-- Some generated symbol has one of the names. -/
theorem exists_mem_generatedSymbols {comparisons calls : Nat} {names : List String} :
    (∃ s ∈ generatedSymbols comparisons calls, s.name ∈ names) ↔
      ∃ n, 1 ≤ n ∧
        (n ≤ comparisons ∧
            ("JUMP_TRUE_" ++ toString n ∈ names ∨ "JUMP_END_" ++ toString n ∈ names) ∨
          n ≤ calls ∧ "RETURN_" ++ toString n ∈ names) := by
  simp only [mem_generatedSymbols]
  constructor
  · rintro ⟨s, ⟨n, hn, ⟨hle, rfl | rfl⟩ | ⟨hle, rfl⟩⟩, hname⟩
    · exact ⟨n, hn, .inl ⟨hle, .inl hname⟩⟩
    · exact ⟨n, hn, .inl ⟨hle, .inr hname⟩⟩
    · exact ⟨n, hn, .inr ⟨hle, hname⟩⟩
  · rintro ⟨n, hn, ⟨hle, hname | hname⟩ | ⟨hle, hname⟩⟩
    · exact ⟨.comparisonHolds n, ⟨n, hn, .inl ⟨hle, .inl rfl⟩⟩, hname⟩
    · exact ⟨.comparisonEnd n, ⟨n, hn, .inl ⟨hle, .inr rfl⟩⟩, hname⟩
    · exact ⟨.returnPoint n, ⟨n, hn, .inr ⟨hle, rfl⟩⟩, hname⟩

theorem isGenerated_of_mem {comparisons calls : Nat} {s : Symbol}
    (h : s ∈ generatedSymbols comparisons calls) : s.isGenerated = true := by
  obtain ⟨n, -, ⟨-, rfl | rfl⟩ | ⟨-, rfl⟩⟩ := mem_generatedSymbols.1 h <;> rfl

theorem nodup_generatedSymbols (comparisons calls : Nat) :
    (generatedSymbols comparisons calls).Nodup := by
  unfold generatedSymbols
  rw [List.nodup_append, List.nodup_flatMap]
  refine ⟨⟨fun n _ => by simp, ?_⟩, ?_, ?_⟩
  · apply (List.nodup_range' 1).imp
    intro m n hne
    simpa [Function.onFun] using hne.symm
  · exact (List.nodup_range' 1).map fun m n h => Symbol.returnPoint.inj h
  · intro s hs t ht hst
    obtain ⟨m, -, hs⟩ := List.mem_flatMap.1 hs
    obtain ⟨n, -, rfl⟩ := List.mem_map.1 ht
    simp [hst] at hs

/-- No two generated symbols have the same name. -/
theorem nodup_map_name_generatedSymbols (comparisons calls : Nat) :
    ((generatedSymbols comparisons calls).map Symbol.name).Nodup := by
  apply (nodup_generatedSymbols comparisons calls).map_on
  intro s hs t ht hname
  exact Symbol.name_inj_of_isGenerated (isGenerated_of_mem hs) (isGenerated_of_mem ht) hname

theorem not_predefined_of_isGenerated {s : Symbol} (h : s.isGenerated = true) :
    s.name ∉ SymbolTable.predefinedNames := by
  intro hmem
  exact Family.not_marks (by decide) (marks_predefined hmem) (marks_generated h)

/-! ### The labels of a run -/

section Run

variable (actions : List Action)

/-- The generated symbols that a run defines. -/
theorem filter_isGenerated_perm :
    ((definitions (Emitter.blocksOf {} actions).flatten).filter Symbol.isGenerated).Perm
      (generatedSymbols (actions.countP Action.compares) (actions.countP Action.calls)) := by
  have hcomparisons := numbers_comparisons.run {} actions
  have hcalls := numbers_calls.run {} actions
  generalize definitions (Emitter.blocksOf {} actions).flatten = symbols at hcomparisons hcalls ⊢
  -- The generated symbols are those of comparisons and those of calls, in some order.
  have hsplit := List.filter_append_perm Symbol.isComparison (symbols.filter Symbol.isGenerated)
  have hfirst : (symbols.filter Symbol.isGenerated).filter Symbol.isComparison =
      symbols.filter Symbol.isComparison := by
    rw [List.filter_filter]
    congr 1
    funext s
    cases s <;> rfl
  have hsecond : ((symbols.filter Symbol.isGenerated).filter fun s => !s.isComparison) =
      symbols.filter Symbol.isReturn := by
    rw [List.filter_filter]
    congr 1
    funext s
    cases s <;> rfl
  rw [hfirst, hsecond, hcomparisons, hcalls, ← List.map_eq_flatMap] at hsplit
  exact hsplit.symm

/-- The names that a run declares. -/
def namesDeclaredBy : List String :=
  declaredNames (placeUnits "" (actions.filterMap Action.unit?))

/-- **The labels of a run** are the generated symbols and the declared names. -/
theorem definitions_perm :
    ((definitions (Emitter.blocksOf {} actions).flatten).map Symbol.name).Perm
      ((generatedSymbols (actions.countP Action.compares) (actions.countP Action.calls)).map
        Symbol.name ++ namesDeclaredBy actions) := by
  have hsplit := (List.filter_append_perm Symbol.isGenerated
    (definitions (Emitter.blocksOf {} actions).flatten)).map Symbol.name
  rw [List.map_append, map_name_definitions_blocksOf] at hsplit
  exact hsplit.symm.trans (((filter_isGenerated_perm actions).map Symbol.name).append_right _)

variable {actions}

theorem cleanLabels_blocksOf {e : Emitter} (howner : e.function = "" ∨ IsName e.function)
    (h : ∀ action ∈ actions, action.Accepted) : CleanLabels (e.blocksOf actions).flatten := by
  have hblocks : ∀ block ∈ e.blocksOf actions, CleanLabels block := by
    refine Emitter.forall_mem_blocksOf (fun e => e.function = "" ∨ IsName e.function) howner ?_
    intro e action haction howner
    cases action with
    | bootstrap => exact ⟨Compilation.cleanLabels_bootstrap howner, howner⟩
    | annotate on => exact ⟨fun s hs => absurd hs List.not_mem_nil, howner⟩
    | compile file c =>
      have hfits : c.Fits := (show c.Accepted from h _ haction).fits
      exact ⟨Compilation.cleanLabels_append (Compilation.cleanLabels_note e _)
        (Compilation.cleanLabels_body howner file hfits), Compilation.owner_after howner hfits⟩
  intro s hs
  obtain ⟨block, hblock, hline⟩ := List.mem_flatten.1 hs
  exact hblocks block hblock s hline

/-- **The labels of a run are fresh** exactly if no name is declared twice, and none is predefined
    or that of a generated symbol. -/
theorem fresh_iff (h : ∀ action ∈ actions, action.Accepted) :
    Fresh .predefined (statements ((Emitter.blocksOf {} actions).flatten.map Line.render)) ↔
      (namesDeclaredBy actions).Nodup ∧
        (∀ name ∈ namesDeclaredBy actions, name ∉ SymbolTable.predefinedNames) ∧
        ∀ s ∈ generatedSymbols (actions.countP Action.compares) (actions.countP Action.calls),
          s.name ∉ namesDeclaredBy actions := by
  have hperm := definitions_perm actions
  unfold Fresh
  rw [labelNames_statements (cleanLabels_blocksOf (.inl rfl) h), hperm.nodup_iff,
    List.nodup_append]
  simp only [hperm.mem_iff, find?_predefined_eq_none_iff, List.mem_append]
  constructor
  · rintro ⟨⟨-, hnodup, hapart⟩, hpredefined⟩
    refine ⟨hnodup, fun name hname => hpredefined name (.inr hname), fun s hs hname => ?_⟩
    exact hapart _ (List.mem_map_of_mem hs) _ hname rfl
  · rintro ⟨hnodup, hpredefined, hapart⟩
    refine ⟨⟨nodup_map_name_generatedSymbols _ _, hnodup, ?_⟩, ?_⟩
    · intro name hname other hother heq
      obtain ⟨s, hs, rfl⟩ := List.mem_map.1 hname
      exact hapart s hs (heq ▸ hother)
    · rintro name (hname | hname)
      · obtain ⟨s, hs, rfl⟩ := List.mem_map.1 hname
        exact not_predefined_of_isGenerated (isGenerated_of_mem hs)
      · exact hpredefined name hname

end Run

/-- **Labels are numbered through a run, and what is declared decides whether it assembles.**  Of
    every run with commands that can be read:

    * the labels of comparisons and of calls are numbered from one on, in order and without gaps,
      and all other labels are the declared names, in order;
    * no block refers to a generated label of another one;
    * if every instruction has an address, the assembler finds a label twice exactly if a declared
      name is declared again, is predefined, or is that of a generated label. -/
theorem labels_numbered_and_assemble (actions : List Action)
    (haccepted : ∀ action ∈ actions, action.Accepted) :
    ∃ blocks e, ({} : Emitter).perform actions = .ok (blocks, e) ∧
      let code := blocks.flatten
      let comparisons := actions.countP Action.compares
      let calls := actions.countP Action.calls
      let declared := namesDeclaredBy actions
      (((definitions code).filter Symbol.isComparison).map Symbol.name =
        (List.range' 1 comparisons).flatMap fun i =>
          ["JUMP_TRUE_" ++ toString i, "JUMP_END_" ++ toString i]) ∧
      (((definitions code).filter Symbol.isReturn).map Symbol.name =
        (List.range' 1 calls).map fun r => "RETURN_" ++ toString r) ∧
      (((definitions code).filter Symbol.isGenerated).map Symbol.name).Nodup ∧
      ((definitions code).filter fun s => !s.isGenerated).map Symbol.name = declared ∧
      (∀ block ∈ blocks, ∀ s ∈ references block, s.isGenerated = true → s ∈ definitions block) ∧
      (instructionCount code ≤ 65535 →
        ((∃ name, assemble (code.map Line.render) = .error (.labelTwice name)) ↔
          ¬ declared.Nodup ∨ (∃ name ∈ declared, name ∈ SymbolTable.predefinedNames) ∨
          ∃ i, 1 ≤ i ∧
            (i ≤ comparisons ∧
                ("JUMP_TRUE_" ++ toString i ∈ declared ∨ "JUMP_END_" ++ toString i ∈ declared) ∨
              i ≤ calls ∧ "RETURN_" ++ toString i ∈ declared))) := by
  refine ⟨_, _, Emitter.perform_of_accepted {} haccepted, ?_, ?_, ?_, ?_, ?_, ?_⟩
  · rw [numbers_comparisons.run, List.map_flatMap]
    rfl
  · rw [numbers_calls.run, ← List.map_eq_flatMap, List.map_map]
    rfl
  · rw [((filter_isGenerated_perm actions).map Symbol.name).nodup_iff]
    exact nodup_map_name_generatedSymbols _ _
  · exact map_name_definitions_blocksOf {} actions
  · refine Emitter.forall_mem_blocksOf (fun _ => True) trivial ?_
    intro e action _ _
    exact ⟨fun s => Emitter.mem_definitions_of_mem_references, trivial⟩
  · intro hcount
    have hclean : CleanLabels (Emitter.blocksOf {} actions).flatten :=
      cleanLabels_blocksOf (.inl rfl) haccepted
    have hfits := addresses_lt_of_instructionCount_le hclean hcount
    rw [assemble_labelTwice_iff hfits, fresh_iff haccepted, ← exists_mem_generatedSymbols]
    simp only [not_and_or, not_forall, not_not, exists_prop]

/-- A run over two files that switches comments and declares a name of its own second call. -/
def twoFiles : List Action :=
  [.bootstrap, .compile "Sys" (.function "Sys.init" 0), .compile "Sys" (.operate .eq),
    .annotate true, .compile "Sys" (.label "JUMP_END_1"), .compile "Main" (.operate .lt),
    .compile "Main" (.function "RETURN_2" 1), .compile "Main" (.call "Sys.init" 3)]

theorem twoFiles_numbered :
    (∀ action ∈ twoFiles, action.Accepted) ∧
      ∃ blocks e, ({} : Emitter).perform twoFiles = .ok (blocks, e) ∧
        ((definitions blocks.flatten).filter Symbol.isComparison).map Symbol.name =
          ["JUMP_TRUE_1", "JUMP_END_1", "JUMP_TRUE_2", "JUMP_END_2"] ∧
        ((definitions blocks.flatten).filter Symbol.isReturn).map Symbol.name =
          ["RETURN_1", "RETURN_2"] ∧
        ((definitions blocks.flatten).filter fun s => !s.isGenerated).map Symbol.name =
          ["Sys.init", "Sys.init$JUMP_END_1", "RETURN_2"] ∧
        ∃ name, assemble (blocks.flatten.map Line.render) = .error (.labelTwice name) := by
  have hread : ∀ unit ∈ twoFiles.filterMap Action.unit?,
      Command.ofLine unit.2.render.toList = .ok unit.2 := by
    decide +kernel
  have haccepted : ∀ action ∈ twoFiles, action.Accepted := by
    intro action haction
    cases action with
    | bootstrap | annotate on => trivial
    | compile file c => exact ⟨_, hread (file, c) (List.mem_filterMap.2 ⟨_, haction, rfl⟩)⟩
  refine ⟨haccepted, ?_⟩
  obtain ⟨blocks, e, hrun, hcomparisons, hcalls, -, hdeclared, -, htwice⟩ :=
    labels_numbered_and_assemble twoFiles haccepted
  have hcount : instructionCount blocks.flatten ≤ 65535 := by
    rw [Emitter.perform_of_accepted {} haccepted] at hrun
    obtain ⟨rfl, -⟩ := Prod.mk.inj (Except.ok.inj hrun)
    decide +kernel
  refine ⟨blocks, e, hrun, hcomparisons.trans (by decide +kernel), hcalls.trans (by decide +kernel),
    hdeclared.trans (by decide +kernel), (htwice hcount).2 (.inr (.inr ?_))⟩
  exact ⟨2, by decide, .inr ⟨by decide, by decide +kernel⟩⟩

end HackVM.Codegen
