import HackVM.Proofs.Machine.Path
import HackVM.Proofs.Machine.Symbols

namespace HackVM.Machine

/-!
# What the symbols of a program stand for

Both passes of the assembler go through the same lines, and each has a test of its own for the lines
that are no instructions.  The tests differ on a parenthesis that is not closed: the first pass
counts an address for it, and the second lays no instruction down.  This file says, from the text of
the lines, what the labels and variables of a program stand for.

* `DefinesLabel`, `leavesOpen`, `givesInstruction` and `symbolicOperand?` — what a line is;
* `Program.instructionsOf` — the instructions that lines of a program become;
* `addresses_statements` and `length_instructionsOf` — what the two passes count;
* `label_stands_for_place` — a label stands for the place of the instructions after it, moved by the
  open parentheses before it;
* `variableNames` — the symbols that are nowhere defined, in the order of their first use;
* `assemble_resolves_symbols` — what the table holds in the end, and what address lines load.
-/

/-! ### Lines -/

/-- A line defines a label: it is the label in parentheses. -/
def DefinesLabel (line name : String) : Prop :=
  Text.bare line.toList = '(' :: (name.toList ++ [')'])

instance (line name : String) : Decidable (DefinesLabel line name) :=
  inferInstanceAs (Decidable (_ = _))

/-- Whether a line opens a parenthesis and does not end with one that closes it. -/
def leavesOpen (line : String) : Bool :=
  match Text.bare line.toList with
  | '(' :: rest => rest.getLast? ≠ some ')'
  | _ => false

/-- Whether a line is an instruction: it is not empty and does not open a parenthesis. -/
def givesInstruction (line : String) : Bool :=
  match Text.bare line.toList with
  | [] | '(' :: _ => false
  | _ => true

/-- What follows the `@` of an address line, unless it is a number. -/
def symbolicOperand? (line : String) : Option String :=
  match Text.bare line.toList with
  | '@' :: operand => if readNumber? operand = none then some (String.ofList operand) else none
  | _ => none

theorem exists_ofCompute (text : List Char) :
    ∃ dest comp jump, Statement.ofCompute text = .compute dest comp jump := by
  unfold Statement.ofCompute
  split
  split <;> exact ⟨_, _, _, rfl⟩

/-- Everything that a line can be: what its text looks like, and its statement. -/
inductive LineForm (line : String) : Option Statement → Prop
  | empty (htext : Text.bare line.toList = []) : LineForm line none
  | label (name : String) (htext : Text.bare line.toList = '(' :: (name.toList ++ [')'])) :
    LineForm line (some (.label name))
  | unclosed (rest : List Char) (htext : Text.bare line.toList = '(' :: rest)
    (hlast : rest.getLast? ≠ some ')') : LineForm line (some .unclosed)
  | number (operand : List Char) (value : Word) (htext : Text.bare line.toList = '@' :: operand)
    (hread : readNumber? operand = some value) : LineForm line (some (.number value))
  | symbol (operand : List Char) (htext : Text.bare line.toList = '@' :: operand)
    (hread : readNumber? operand = none) : LineForm line (some (.symbol (String.ofList operand)))
  | compute (c : Char) (text : List Char) (htext : Text.bare line.toList = c :: text)
    (hparen : c ≠ '(') (hat : c ≠ '@') (dest comp jump) :
    LineForm line (some (.compute dest comp jump))

/-- The statement of a line goes with its text. -/
theorem lineForm (line : String) : LineForm line (statement? line) := by
  cases hbare : Text.bare line.toList with
  | nil =>
    have hst : statement? line = none := by simp [statement?, hbare]
    rw [hst]
    exact .empty hbare
  | cons c text =>
    rw [statement?_of_bare hbare (by simp)]
    by_cases hparen : c = '('
    · subst hparen
      by_cases hlast : text.getLast? = some ')'
      · have hst : Statement.ofText ('(' :: text) = .label (String.ofList text.dropLast) := by
          simp [Statement.ofText, hlast]
        rw [hst]
        apply LineForm.label
        rw [hbare, String.toList_ofList, List.dropLast_append_getLast? _ hlast]
      · have hst : Statement.ofText ('(' :: text) = .unclosed := by
          simp [Statement.ofText, hlast]
        rw [hst]
        exact .unclosed text hbare hlast
    · by_cases hat : c = '@'
      · subst hat
        rw [ofText_at]
        cases hread : readNumber? text with
        | some value => exact .number text value hbare hread
        | none => exact .symbol text hbare hread
      · obtain ⟨dest, comp, jump, hcompute⟩ := exists_ofCompute (c :: text)
        rw [ofText_eq_ofCompute (by simpa using hparen) (by simpa using hat), hcompute]
        exact .compute c text hbare hparen hat dest comp jump

theorem definesLabel_iff {line name : String} :
    DefinesLabel line name ↔ statement? line = some (.label name) := by
  have hform := lineForm line
  unfold DefinesLabel
  generalize statement? line = st at hform ⊢
  cases hform with
  | label other htext => simp [htext, String.toList_inj]
  | unclosed rest htext hlast =>
    refine iff_of_false (fun heq => hlast ?_) (by simp)
    obtain ⟨-, rfl⟩ := List.cons.inj (htext.symm.trans heq)
    exact List.getLast?_concat
  | empty htext => simp [htext]
  | number operand value htext | symbol operand htext => simp [htext]
  | compute c text htext hparen => simp [htext, hparen]

/-- The first pass counts an address for a line that is an instruction or an open parenthesis. -/
theorem addresses_statement?_line (line : String) :
    addresses (statement? line).toList =
      (givesInstruction line).toNat + (leavesOpen line).toNat := by
  have hform := lineForm line
  unfold givesInstruction leavesOpen
  generalize statement? line = st at hform ⊢
  cases hform with
  | empty htext => simp [htext]
  | label name htext => simp [htext, addresses, Statement.takesAddress]
  | unclosed rest htext hlast => simp [htext, hlast, addresses, Statement.takesAddress]
  | number operand value htext | symbol operand htext =>
    simp [htext, addresses, Statement.takesAddress]
  | compute c text htext hparen => simp [htext, hparen, addresses, Statement.takesAddress]

/-- The second pass lays an instruction down for a line that is one. -/
theorem length_instruction?_line (t : SymbolTable) (line : String) :
    ((statement? line).bind (Statement.instruction? t)).toList.length =
      (givesInstruction line).toNat := by
  have hform := lineForm line
  unfold givesInstruction
  generalize statement? line = st at hform ⊢
  cases hform with
  | empty htext => simp [htext]
  | label name htext => simp [htext, Statement.instruction?]
  | unclosed rest htext => simp [htext, Statement.instruction?]
  | number operand value htext | symbol operand htext => simp [htext, Statement.instruction?]
  | compute c text htext hparen => simp [htext, hparen, Statement.instruction?]

/-- The name that a line uses is its symbolic operand. -/
theorem used?_statement? (line : String) :
    (statement? line).bind Statement.used? = symbolicOperand? line := by
  have hform := lineForm line
  unfold symbolicOperand?
  generalize statement? line = st at hform ⊢
  cases hform with
  | empty htext => simp [htext]
  | label name htext | unclosed rest htext => simp [htext, Statement.used?]
  | number operand value htext hread | symbol operand htext hread =>
    simp [htext, hread, Statement.used?]
  | compute c text htext hparen hat => simp [htext, hat, Statement.used?]

/-! ### What the passes count -/

variable {lines before after : List String} {line name : String} {p : Program}

/-- The instructions that lines of a program become. -/
def Program.instructionsOf (p : Program) (lines : List String) : List Instruction :=
  (statements lines).filterMap (Statement.instruction? p.symbols)

theorem instructionsOf_append (p : Program) (first second : List String) :
    p.instructionsOf (first ++ second) = p.instructionsOf first ++ p.instructionsOf second := by
  rw [Program.instructionsOf, statements_append, List.filterMap_append]
  rfl

theorem instructionsOf_cons (p : Program) (line : String) (lines : List String) :
    p.instructionsOf (line :: lines) =
      ((statement? line).bind (Statement.instruction? p.symbols)).toList ++
        p.instructionsOf lines := by
  rw [Program.instructionsOf, statements_cons, List.filterMap_append]
  congr 1
  cases statement? line with
  | none => rfl
  | some st => cases hst : st.instruction? p.symbols <;> simp [hst]

/-- **The first pass** counts the lines that are instructions or open parentheses. -/
theorem addresses_statements (lines : List String) :
    addresses (statements lines) = lines.countP givesInstruction + lines.countP leavesOpen := by
  induction lines with
  | nil => rfl
  | cons line lines ih =>
    rw [statements_cons, addresses_append, addresses_statement?_line, ih, List.countP_cons,
      List.countP_cons]
    cases givesInstruction line <;> cases leavesOpen line <;> simp <;> omega

/-- **The second pass** lays down the lines that are instructions. -/
theorem length_instructionsOf (p : Program) (lines : List String) :
    (p.instructionsOf lines).length = lines.countP givesInstruction := by
  induction lines with
  | nil => rfl
  | cons line lines ih =>
    rw [instructionsOf_cons, List.length_append, length_instruction?_line, ih, List.countP_cons]
    cases givesInstruction line <;> simp
    omega

/-! ### Labels -/

/-- Jumps whatever is computed. -/
def Instruction.goto : Instruction :=
  .compute .nowhere (.ok (.value .zero)) (some (.ok .always))

theorem run_goto {rom : Array Instruction} {c : Cpu} (h : rom[c.pc]? = some .goto) :
    c.run rom 1 = ({ c with pc := c.a.toNat }, none) :=
  Cpu.run_one h
    (by simp [Instruction.goto, Cpu.execute, Cpu.store, Asm.Destination.nowhere, jumpHolds])

/-- A label stands for what the first pass counts before it. -/
theorem Assembled.find?_label (h : Assembled (before ++ line :: after) p)
    (hline : DefinesLabel line name) :
    ∃ address, p.symbols.find? name = some address ∧
      address.toNat = before.countP givesInstruction + before.countP leavesOpen := by
  have hsplit : statements (before ++ line :: after) =
      statements before ++ .label name :: statements after := by
    rw [statements_append, statements_cons, definesLabel_iff.1 hline]
    rfl
  refine ⟨_, h.label _ _ _ hsplit, ?_⟩
  -- All addresses are below the limit, and those before the label are among them.
  have hlt : addresses (statements before) < 2 ^ 16 := by
    have hfits := h.fits
    rw [hsplit, addresses_append] at hfits
    exact (Nat.le_add_right _ _).trans_lt hfits
  rw [BitVec.toNat_ofNat, Nat.mod_eq_of_lt hlt, addresses_statements]

/-- The definition of a label is no instruction. -/
theorem Assembled.rom_label (h : Assembled (before ++ line :: after) p)
    (hline : DefinesLabel line name) :
    p.rom.toList = p.instructionsOf before ++ p.instructionsOf after := by
  have hrom : p.rom.toList = p.instructionsOf (before ++ line :: after) := h.rom
  rw [hrom, instructionsOf_append, instructionsOf_cons, definesLabel_iff.1 hline]
  rfl

/-- **A label stands for the place of the code after it, moved by the open parentheses before it.**
    Take a list of lines that assembles, and a line of it that defines a label.

    * The instructions of the program are those of the lines before the definition and then those
      of the lines after it, so that the number of the former is the index of the first of the
      latter, or the length of the program if there is none.  The lines that are instructions are
      those that are not empty and do not open a parenthesis.
    * The address of the label is this index and one more for every line before the definition that
      opens a parenthesis and does not close it.  So it is the index exactly if there is no such
      line.
    * A jump to the label goes on with the instructions of the lines after the definition, less as
      many of them as there are such lines. -/
theorem label_stands_for_place (h : assemble lines = .ok p)
    (hlines : lines = before ++ line :: after) (hline : DefinesLabel line name) :
    let index := (p.instructionsOf before).length
    p.rom.toList = p.instructionsOf before ++ p.instructionsOf after ∧
      index = before.countP givesInstruction ∧
      ∃ address, p.symbols.find? name = some address ∧
        address.toNat = index + before.countP leavesOpen ∧
        (address.toNat = index ↔ ∀ other ∈ before, leavesOpen other = false) ∧
        ∀ c : Cpu, c.a = address → p.rom[c.pc]? = some .goto →
          ∃ c', c.run p.rom 1 = (c', none) ∧ c'.pc = address.toNat ∧
            p.rom.toList.drop c'.pc = (p.instructionsOf after).drop (before.countP leavesOpen) := by
  subst hlines
  have hassembled := assembled_of_ok h
  have hrom := hassembled.rom_label hline
  have hindex := length_instructionsOf p before
  obtain ⟨address, hfind, haddress⟩ := hassembled.find?_label hline
  rw [← hindex] at haddress
  refine ⟨hrom, hindex, address, hfind, haddress, ?_, ?_⟩
  · have hzero : address.toNat = (p.instructionsOf before).length ↔
        before.countP leavesOpen = 0 := by
      omega
    rw [hzero, List.countP_eq_zero]
    simp
  · rintro c rfl hgoto
    refine ⟨_, run_goto hgoto, rfl, ?_⟩
    show p.rom.toList.drop c.a.toNat = _
    rw [hrom, haddress, List.drop_append]
    simp

/-- A label that is used before it is defined, between lines of all kinds, with an open parenthesis
    after it. -/
def usedAhead : List String :=
  ["@LOOP // ahead", "0;JMP", " // nothing"] ++ " (LOOP)\t" :: ["(half", "@LOOP", "0;JMP"]

theorem usedAhead_stands_for_place :
    DefinesLabel " (LOOP)\t" "LOOP" ∧ ∃ p, assemble usedAhead = .ok p ∧
      ∃ address, p.symbols.find? "LOOP" = some address ∧ address.toNat = 2 ∧
        p.rom.toList.drop 2 = p.instructionsOf ["(half", "@LOOP", "0;JMP"] := by
  have hline : DefinesLabel " (LOOP)\t" "LOOP" := by decide
  refine ⟨hline, ?_⟩
  have hassembles : (assemble usedAhead).map (fun _ => ()) = .ok () := by decide +kernel
  obtain ⟨p, hp, -⟩ := ok_of_map hassembles
  obtain ⟨hrom, hindex, address, hfind, haddress, -, -⟩ := label_stands_for_place hp rfl hline
  have htwo : (p.instructionsOf ["@LOOP // ahead", "0;JMP", " // nothing"]).length = 2 :=
    hindex.trans (by decide)
  refine ⟨p, hp, address, hfind, ?_, ?_⟩
  · rw [haddress, htwo]
    decide
  · rw [hrom, ← htwo, List.drop_left]

/-- A jump over an open parenthesis. -/
def movedLabel : List String :=
  ["@START", "0;JMP", "(half"] ++ "(START)" :: ["@7", "D=A"]

/-- The two passes do not agree after an open parenthesis: the label stands for address 3, and the
    code after it starts at 2, so that the jump misses its first instruction. -/
theorem movedLabel_off_by_one :
    DefinesLabel "(START)" "START" ∧ ∃ p, assemble movedLabel = .ok p ∧
      p.rom.toList =
        p.instructionsOf ["@START", "0;JMP", "(half"] ++ p.instructionsOf ["@7", "D=A"] ∧
      (p.instructionsOf ["@START", "0;JMP", "(half"]).length = 2 ∧
      (p.instructionsOf ["@7", "D=A"]).length = 2 ∧
      p.symbols.find? "START" = some 3 := by
  have hline : DefinesLabel "(START)" "START" := by decide
  refine ⟨hline, ?_⟩
  have hassembles : (assemble movedLabel).map (fun p => p.symbols.find? "START") =
      .ok (some 3) := by decide +kernel
  obtain ⟨p, hp, hfind⟩ := ok_of_map hassembles
  refine ⟨p, hp, (assembled_of_ok hp).rom_label hline, ?_, ?_, hfind⟩
  · rw [length_instructionsOf]
    decide
  · rw [length_instructionsOf]
    decide

/-! ### Variables -/

/-- The symbols that lines use and that are neither known beforehand nor defined as labels anywhere
    among the lines, in the order of their first use. -/
def variableNames (lines : List String) : List String :=
  ((lines.filterMap symbolicOperand?).filter fun name =>
    name ∉ SymbolTable.predefinedNames ∧ ∀ line ∈ lines, ¬ DefinesLabel line name).eraseDups

theorem mem_labelNames_statements {lines : List String} {name : String} :
    name ∈ labelNames (statements lines) ↔ ∃ line ∈ lines, DefinesLabel line name := by
  rw [mem_labelNames, statements_eq_filterMap, List.mem_filterMap]
  simp only [definesLabel_iff]

theorem usedNames_statements (lines : List String) :
    usedNames (statements lines) = lines.filterMap symbolicOperand? := by
  rw [usedNames, statements_eq_filterMap, List.filterMap_filterMap]
  exact List.filterMap_congr fun line _ => used?_statement? line

theorem variableNames_eq_undefinedNames (lines : List String) :
    variableNames lines = undefinedNames (statements lines) := by
  unfold variableNames undefinedNames
  rw [usedNames_statements]
  congr 2
  funext name
  rw [Bool.eq_iff_iff, decide_eq_true_iff, decide_eq_true_iff, mem_labelNames_statements, and_comm]
  simp

theorem mem_variableNames {lines : List String} {name : String} :
    name ∈ variableNames lines ↔ name ∈ usedNames (statements lines) ∧
      SymbolTable.predefined.find? name = none ∧ ∀ line ∈ lines, ¬ DefinesLabel line name := by
  rw [variableNames, List.mem_eraseDups, List.mem_filter, usedNames_statements, decide_eq_true_iff,
    find?_predefined_eq_none_iff]

/-- A program whose lines assemble has its variables one after the other. -/
theorem find?_variable (h : assemble lines = .ok p) {k : Nat}
    (hk : (variableNames lines)[k]? = some name) :
    ∃ address, p.symbols.find? name = some address ∧ address.toNat = firstVariable + k := by
  obtain ⟨hfits, hfresh, hvariables⟩ := exists_assemble_iff.1 ⟨p, h⟩
  obtain ⟨p', hp', haddress⟩ := assemble_ok hfits hfresh hvariables
  obtain rfl : p = p' := Except.ok.inj (h.symm.trans hp')
  rw [variableNames_eq_undefinedNames] at hk
  refine ⟨_, haddress k name hk, ?_⟩
  have hlt : firstVariable + k < 2 ^ 16 := by
    have hlength := (List.getElem?_eq_some_iff.1 hk).1
    exact (Nat.add_lt_add_left hlength _).trans hvariables
  rw [BitVec.toNat_ofNat, Nat.mod_eq_of_lt hlt]

/-- What is in the table is known beforehand, or a label, or a variable. -/
theorem Assembled.mem_of_find? (h : Assembled lines p) (hfind : p.symbols.find? name ≠ none) :
    SymbolTable.predefined.find? name ≠ none ∨ (∃ line ∈ lines, DefinesLabel line name) ∨
      name ∈ variableNames lines := by
  rcases h.source name hfind with hpre | hlabel | hused
  · exact .inl hpre
  · exact .inr (.inl (mem_labelNames_statements.1 (mem_labelNames.2 hlabel)))
  · -- A symbol that is used is a variable unless it is one of the others.
    by_cases hpre : SymbolTable.predefined.find? name = none
    · by_cases hlabel : ∃ line ∈ lines, DefinesLabel line name
      · exact .inr (.inl hlabel)
      · refine .inr (.inr ?_)
        rw [mem_variableNames, mem_usedNames]
        exact ⟨hused, hpre, fun line hline hdefines => hlabel ⟨line, hline, hdefines⟩⟩
    · exact .inl hpre

/-- An address line loads its number, or the address of its symbol. -/
theorem Assembled.rom_address {operand : List Char} (h : Assembled (before ++ line :: after) p)
    (hline : Text.bare line.toList = '@' :: operand) :
    ∃ value, p.rom.toList = p.instructionsOf before ++ .load value :: p.instructionsOf after ∧
      (readNumber? operand = some value ∨
        readNumber? operand = none ∧ p.symbols.find? (String.ofList operand) = some value) := by
  have hrom : p.rom.toList = p.instructionsOf (before ++ line :: after) := h.rom
  have hst := statement?_of_bare hline (by simp)
  rw [ofText_at] at hst
  rw [hrom, instructionsOf_append, instructionsOf_cons, hst]
  cases hread : readNumber? operand with
  | some value => exact ⟨value, rfl, .inl rfl⟩
  | none =>
    have hmem : Statement.symbol (String.ofList operand) ∈
        statements (before ++ line :: after) := by
      rw [hread] at hst
      rw [statements_append, statements_cons, hst]
      simp
    obtain ⟨value, hfind⟩ := h.known _ hmem
    refine ⟨value, ?_, .inr ⟨rfl, hfind⟩⟩
    simp [Statement.instruction?, hfind]

/-! ### The final table -/

/-- What the symbols of lines stand for in a table. -/
structure Resolves (t : SymbolTable) (lines : List String) : Prop where
  /-- The symbols that are known beforehand keep their addresses. -/
  predefined : ∀ name address, SymbolTable.predefined.find? name = some address →
    t.find? name = some address
  /-- A label stands for the number of lines before it that are instructions or open parentheses,
      which is what the first pass counts. -/
  label : ∀ before line after name, lines = before ++ line :: after → DefinesLabel line name →
    ∃ address, t.find? name = some address ∧
      address.toNat = before.countP givesInstruction + before.countP leavesOpen
  /-- The variables have the addresses from the first one on. -/
  allotted : ∀ k name, (variableNames lines)[k]? = some name →
    ∃ address, t.find? name = some address ∧ address.toNat = firstVariable + k
  /-- There are no other symbols. -/
  exhaustive : ∀ name, t.find? name ≠ none → SymbolTable.predefined.find? name ≠ none ∨
    (∃ line ∈ lines, DefinesLabel line name) ∨ name ∈ variableNames lines

/-- **What the symbols of a program stand for.**  For every list of lines that assembles,

    * the table holds the symbols that are known beforehand, the labels with the addresses of the
      first pass, and the variables with the addresses 16, 17, ... in the order of their first use,
      and nothing else;
    * labels and variables are apart from each other and from what is known beforehand;
    * the instructions of the program are those of its lines, and that of an address line loads its
      number if it has one, and else what its symbol stands for in the final table, wherever the
      symbol is defined. -/
theorem assemble_resolves_symbols (h : assemble lines = .ok p) :
    Resolves p.symbols lines ∧
      (∀ line ∈ lines, ∀ name, DefinesLabel line name →
        SymbolTable.predefined.find? name = none ∧ name ∉ variableNames lines) ∧
      (∀ name ∈ variableNames lines, SymbolTable.predefined.find? name = none) ∧
      p.rom.toList = p.instructionsOf lines ∧
      ∀ before line after operand, lines = before ++ line :: after →
        Text.bare line.toList = '@' :: operand →
        ∃ value, p.rom.toList = p.instructionsOf before ++ .load value :: p.instructionsOf after ∧
          (readNumber? operand = some value ∨
            readNumber? operand = none ∧ p.symbols.find? (String.ofList operand) = some value) := by
  have hassembled := assembled_of_ok h
  refine ⟨⟨hassembled.predefined, ?_, ?_, ?_⟩, ?_, ?_, hassembled.rom, ?_⟩
  · rintro before line after name rfl hline
    exact hassembled.find?_label hline
  · intro k name hk
    exact find?_variable h hk
  · intro name hfind
    exact hassembled.mem_of_find? hfind
  · intro line hline name hdefines
    obtain ⟨-, ⟨-, hfresh⟩, -⟩ := exists_assemble_iff.1 ⟨p, h⟩
    refine ⟨hfresh name (mem_labelNames_statements.2 ⟨line, hline, hdefines⟩), fun hmem => ?_⟩
    exact (mem_variableNames.1 hmem).2.2 line hline hdefines
  · intro name hmem
    exact (mem_variableNames.1 hmem).2.1
  · rintro before line after operand rfl hline
    exact hassembled.rom_address hline

/-- Variables that come again, a label that is used before it is defined, numbers, and names that
    only look like numbers. -/
def mixedSymbols : List String :=
  ["@x", "@L // ahead", "@5", "@65536", " (L)", "@x", "@SP", "(5)", "@+7", "@y"]

theorem mixedSymbols_resolved :
    variableNames mixedSymbols = ["x", "65536", "y"] ∧ ∃ p, assemble mixedSymbols = .ok p ∧
      (∃ address, p.symbols.find? "y" = some address ∧ address.toNat = 18) ∧
      (∃ address, p.symbols.find? "5" = some address ∧ address.toNat = 6) ∧
      p.symbols.find? "7" = none ∧
      ∃ value, p.rom.toList[1]? = some (.load value) ∧ p.symbols.find? "L" = some value ∧
        value.toNat = 4 := by
  have hnames : variableNames mixedSymbols = ["x", "65536", "y"] := by decide +kernel
  have hassembles : (assemble mixedSymbols).map (fun _ => ()) = .ok () := by decide +kernel
  obtain ⟨p, hp, -⟩ := ok_of_map hassembles
  obtain ⟨hresolves, -, -, -, hloads⟩ := assemble_resolves_symbols hp
  refine ⟨hnames, p, hp, hresolves.allotted 2 "y" (by rw [hnames]; rfl), ?_, ?_, ?_⟩
  · exact hresolves.label (mixedSymbols.take 7) "(5)" ["@+7", "@y"] "5" rfl (by decide)
  · by_contra hfind
    rcases hresolves.exhaustive "7" hfind with hpre | ⟨line, hline, hdefines⟩ | hmem
    · exact hpre (by decide +kernel)
    · have hnone : ∀ line ∈ mixedSymbols, ¬ DefinesLabel line "7" := by decide +kernel
      exact hnone line hline hdefines
    · rw [hnames] at hmem
      exact absurd hmem (by decide)
  · obtain ⟨address, hfind, haddress⟩ :=
      hresolves.label (mixedSymbols.take 4) " (L)" (mixedSymbols.drop 5) "L" rfl (by decide)
    obtain ⟨value, hrom, hread | ⟨-, hvalue⟩⟩ :=
      hloads ["@x"] "@L // ahead" (mixedSymbols.drop 2) ['L'] rfl (by decide)
    · have hname : readNumber? ['L'] = none := by decide
      simp [hname] at hread
    · have hone : (p.instructionsOf ["@x"]).length = 1 := by
        rw [length_instructionsOf]
        decide
      obtain rfl : address = value := Option.some.inj (hfind.symm.trans hvalue)
      refine ⟨address, ?_, hfind, haddress⟩
      rw [hrom, List.getElem?_append_right hone.le, hone]
      rfl

end HackVM.Machine
