import HackVM.Proofs.Machine.Passes
import HackVM.Proofs.Machine.Stack

namespace HackVM

open Asm Machine

/-!
# Where compiled code stands in an assembled program

* `Program.operand` — the word that an address line loads;
* `Program.Holds p pc lines` — the program `p` holds the lines from the address `pc` on: each
  instruction stands in its place, and each label stands for the place where it is;
* `holds_of_assembled_between` — an assembled program holds the compiled lines among its lines, and
  `holds_of_assembled` — if all are compiled, from address 0 on;
* `operand_load`, `operand_number`, `operand_symbol`, `operand_static` — what address lines load.
-/

/-- The number of instructions in a line. -/
def Asm.Line.size : Line → Nat
  | .comment _ | .label _ => 0
  | _ => 1

section Size

variable (s : Symbol) (r : Register) (n : Nat) (dest : Destination) (comp : Computation)

@[simp] theorem Asm.Line.size_label : (Line.label s).size = 0 := rfl

@[simp] theorem Asm.Line.size_symbol : (Line.symbol s).size = 1 := rfl

@[simp] theorem Asm.Line.size_load : (Line.load r).size = 1 := rfl

@[simp] theorem Asm.Line.size_number : (Line.number n).size = 1 := rfl

@[simp] theorem Asm.Line.size_set : (Line.set dest comp).size = 1 := rfl

@[simp] theorem Asm.Line.size_jump (condition : Jump) : (Line.jump comp condition).size = 1 := rfl

end Size

/-- The number of instructions in a list of lines. -/
def instructionCount : List Line → Nat
  | [] => 0
  | line :: lines => line.size + instructionCount lines

@[simp] theorem instructionCount_nil : instructionCount [] = 0 := rfl

@[simp] theorem instructionCount_cons (line : Line) (lines : List Line) :
    instructionCount (line :: lines) = line.size + instructionCount lines := rfl

@[simp] theorem instructionCount_append (first second : List Line) :
    instructionCount (first ++ second) = instructionCount first + instructionCount second := by
  induction first with
  | nil => simp
  | cons line first ih => simp [ih, Nat.add_assoc]

namespace Machine

/-- The word that an address line loads. -/
def Program.operand (p : Program) (line : Line) : Word :=
  match statement? line.render with
  | some (.number value) => value
  | some (.symbol name) => (p.symbols.find? name).getD 0
  | _ => 0

/-- The program holds the lines from the address on. -/
def Program.Holds (p : Program) : Nat → List Line → Prop
  | _, [] => True
  | pc, .comment _ :: lines => p.Holds pc lines
  | pc, .label s :: lines =>
    p.symbols.find? s.name = some (BitVec.ofNat 16 pc) ∧ p.Holds pc lines
  | pc, .compute dest comp jump :: lines =>
    p.rom[pc]? = some (.compute dest (.ok comp) (jump.map .ok)) ∧ p.Holds (pc + 1) lines
  | pc, line :: lines => p.rom[pc]? = some (.load (p.operand line)) ∧ p.Holds (pc + 1) lines

theorem Program.holds_append {p : Program} {pc : Nat} {first second : List Line} :
    p.Holds pc (first ++ second) ↔
      p.Holds pc first ∧ p.Holds (pc + instructionCount first) second := by
  induction first generalizing pc with
  | nil => simp [Program.Holds]
  | cons line first ih =>
    cases line with
    | comment text | label s => simp [Program.Holds, ih, Line.size, and_assoc]
    | number n | symbol s | compute dest comp jump =>
      simp [Program.Holds, ih, Line.size, and_assoc, Nat.add_assoc]

/-! ### Every line stands in its place -/

/-- Every label of the lines is a name. -/
def CleanLabels (lines : List Line) : Prop :=
  ∀ s, Line.label s ∈ lines → IsName s.name

/-- The instruction of a line. -/
def lineInstruction? (p : Program) (line : Line) : Option Instruction :=
  (statement? line.render).bind (Statement.instruction? p.symbols)

theorem lineInstruction?_address (p : Program) {line : Line}
    (h : (∃ n, line = .number n) ∨ ∃ s, line = .symbol s) :
    lineInstruction? p line = some (.load (p.operand line)) := by
  obtain ⟨st, hst, haddr⟩ := statement?_address line h
  cases st with
  | number value => simp [lineInstruction?, Program.operand, hst, Statement.instruction?]
  | symbol name => simp [lineInstruction?, Program.operand, hst, Statement.instruction?]
  | label | unclosed | compute => exact absurd haddr (by simp [Statement.IsAddress])

/-- A line takes up as many addresses in the first pass as it has instructions. -/
theorem addresses_statement? {line : Line} (h : ∀ s, line = .label s → IsName s.name) :
    addresses (statement? line.render).toList = line.size := by
  have haddress : (∃ n, line = .number n) ∨ (∃ s, line = .symbol s) →
      addresses (statement? line.render).toList = 1 := by
    intro hline
    obtain ⟨st, hst, hkind⟩ := statement?_address line hline
    rw [hst]
    cases st with
    | number | symbol => rfl
    | label | unclosed | compute => exact hkind.elim
  cases line with
  | comment text =>
    rw [statement?_comment]
    rfl
  | label s =>
    rw [statement?_label (h s rfl)]
    rfl
  | number n => exact haddress (.inl ⟨n, rfl⟩)
  | symbol s => exact haddress (.inr ⟨s, rfl⟩)
  | compute dest comp jump =>
    rw [statement?_compute]
    rfl

theorem instructionCount_eq_addresses {lines : List Line} (h : CleanLabels lines) :
    instructionCount lines = addresses (statements (lines.map Line.render)) := by
  induction lines with
  | nil => rfl
  | cons line lines ih =>
    have hline : addresses (statement? line.render).toList = line.size :=
      addresses_statement? fun s hs => h s (by simp [hs])
    have hlines := ih fun s hs => h s (List.mem_cons_of_mem _ hs)
    rw [instructionCount_cons, List.map_cons, statements_cons, addresses_append, hline, hlines]

variable {lines : List Line} {p : Program}

theorem Assembled.rom_lines (h : Assembled (lines.map Line.render) p) :
    p.rom.toList = lines.filterMap (lineInstruction? p) := by
  rw [h.rom, statements_eq_filterMap, List.filterMap_map, List.filterMap_filterMap]
  rfl

/-- Without an open parenthesis among them, statements have as many instructions as they take up
    addresses. -/
theorem length_filterMap_instruction? {program : List Statement} (h : Statement.unclosed ∉ program)
    (t : SymbolTable) :
    (program.filterMap (Statement.instruction? t)).length = addresses program := by
  induction program with
  | nil => rfl
  | cons st program ih =>
    rw [List.mem_cons, not_or] at h
    rw [List.filterMap_cons, addresses_cons, ← ih h.2]
    cases st with
    | unclosed => exact absurd rfl h.1
    | label name => simp [Statement.instruction?, Statement.takesAddress]
    | number | symbol | compute =>
      simp [Statement.instruction?, Statement.takesAddress, Nat.add_comm]

/-- A line whose label is a name leaves no parenthesis open. -/
theorem statement?_ne_unclosed {line : Line} (h : ∀ s, line = .label s → IsName s.name) :
    statement? line.render ≠ some .unclosed := by
  have haddress : (∃ n, line = .number n) ∨ (∃ s, line = .symbol s) →
      statement? line.render ≠ some .unclosed := by
    intro hline hunclosed
    obtain ⟨st, hst, hkind⟩ := statement?_address line hline
    obtain rfl := Option.some.inj (hst.symm.trans hunclosed)
    exact hkind
  cases line with
  | comment text => simp [statement?_comment]
  | label s => simp [statement?_label (h s rfl)]
  | number n => exact haddress (.inl ⟨n, rfl⟩)
  | symbol s => exact haddress (.inr ⟨s, rfl⟩)
  | compute dest comp jump => simp [statement?_compute]

theorem unclosed_not_mem_statements (h : CleanLabels lines) :
    Statement.unclosed ∉ statements (lines.map Line.render) := by
  rw [statements_eq_filterMap, List.filterMap_map, List.mem_filterMap]
  rintro ⟨line, hline, hst⟩
  exact statement?_ne_unclosed (fun s hs => h s (hs ▸ hline)) hst

/-- **An assembled program holds the compiled lines in it**, from the address after the lines before
    them on.  Those may be anything but an open parenthesis, which takes up an address and gives no
    instruction.  The induction moves one compiled line after the other to the lines before. -/
theorem holds_of_assembled_between {before after : List String}
    (h : Assembled (before ++ (lines.map Line.render ++ after)) p)
    (hclosed : Statement.unclosed ∉ statements before) (hclean : CleanLabels lines) :
    p.Holds (addresses (statements before)) lines := by
  induction lines generalizing before with
  | nil => trivial
  | cons line lines ih =>
    have hname : ∀ s, line = .label s → IsName s.name := fun s hs => hclean s (by simp [hs])
    have hsplit : before ++ ((line :: lines).map Line.render ++ after) =
        (before ++ [line.render]) ++ (lines.map Line.render ++ after) := by
      simp
    have hnext : p.Holds (addresses (statements before) + line.size) lines := by
      rw [← addresses_statement? hname, ← statements_singleton, ← addresses_append,
        ← statements_append]
      refine ih (hsplit ▸ h) ?_ fun s hs => hclean s (List.mem_cons_of_mem _ hs)
      rw [statements_append, statements_singleton, List.mem_append, not_or]
      exact ⟨hclosed, fun hmem => statement?_ne_unclosed hname (Option.mem_toList.1 hmem)⟩
    -- The instructions of the lines before it are as many as the addresses that they take up.
    have hget : ∀ instruction, lineInstruction? p line = some instruction →
        p.rom[addresses (statements before)]? = some instruction := by
      intro instruction hline
      obtain ⟨st, hst, hinstruction⟩ := Option.bind_eq_some_iff.1 hline
      rw [← Array.getElem?_toList, h.rom, hsplit, statements_append, statements_append,
        statements_singleton, hst, List.filterMap_append, List.filterMap_append, List.append_assoc,
        ← length_filterMap_instruction? hclosed p.symbols, List.getElem?_append_right le_rfl]
      simp [hinstruction]
    cases line with
    | comment text => exact hnext
    | label s =>
      refine ⟨h.label (statements before) s.name (statements (lines.map Line.render ++ after)) ?_,
        hnext⟩
      rw [hsplit, statements_append, statements_append, statements_singleton,
        statement?_label (hname s rfl)]
      simp
    | number n => exact ⟨hget _ (lineInstruction?_address p (.inl ⟨n, rfl⟩)), hnext⟩
    | symbol s => exact ⟨hget _ (lineInstruction?_address p (.inr ⟨s, rfl⟩)), hnext⟩
    | compute dest comp jump =>
      exact ⟨hget _ (by simp [lineInstruction?, statement?_compute, Statement.instruction?]), hnext⟩

/-- **An assembled program holds its lines.** -/
theorem holds_of_assembled (h : Assembled (lines.map Line.render) p) (hclean : CleanLabels lines) :
    p.Holds 0 lines := by
  have hwhole : Assembled ([] ++ (lines.map Line.render ++ [])) p := by simpa using h
  exact holds_of_assembled_between hwhole List.not_mem_nil hclean

/-- A program is as long as its lines have instructions. -/
theorem Assembled.size_rom (h : Assembled (lines.map Line.render) p) (hclean : CleanLabels lines) :
    p.rom.size = instructionCount lines := by
  rw [← Array.length_toList, h.rom,
    length_filterMap_instruction? (unclosed_not_mem_statements hclean),
    instructionCount_eq_addresses hclean]

/-- There is an address for the end of the program. -/
theorem instructionCount_lt_of_assembled (h : Assembled (lines.map Line.render) p)
    (hclean : CleanLabels lines) : instructionCount lines < 65536 := by
  rw [instructionCount_eq_addresses hclean]
  exact h.fits

/-! ### What address lines load -/

theorem operand_number (p : Program) {n : Nat} (h : n < 65536) :
    p.operand (.number n) = BitVec.ofNat 16 n := by
  simp [Program.operand, statement?_number h]

theorem operand_symbol (p : Program) {s : Symbol} {v : Word} (h : IsName s.name)
    (hfind : p.symbols.find? s.name = some v) : p.operand (.symbol s) = v := by
  simp [Program.operand, statement?_symbol h, hfind]

theorem isName_register (r : Register) : IsName r.name := by
  cases r <;> decide

theorem predefined_register (r : Register) :
    SymbolTable.predefined.find? r.name = some r.address := by
  cases r <;> decide +kernel

theorem find?_insertAll_source {t : SymbolTable} {bindings : List (String × Word)} {name : String}
    (h : (t.insertAll bindings).find? name ≠ none) :
    t.find? name ≠ none ∨ name ∈ bindings.map Prod.fst := by
  induction bindings generalizing t with
  | nil => exact .inl h
  | cons binding bindings ih =>
    -- The table changes in the induction: the first binding is entered before the others.
    rcases ih (t := t.insert binding.1 binding.2) h with ht | hmem
    · by_cases hname : binding.1 = name
      · exact .inr (by simp [hname])
      · rw [SymbolTable.find?_insert, if_neg hname] at ht
        exact .inl ht
    · exact .inr (List.mem_cons_of_mem _ hmem)

theorem not_slash_mem_of_predefined {name : String}
    (h : SymbolTable.predefined.find? name ≠ none) : '/' ∉ name.toList := by
  have hmem : name ∈ (SymbolTable.namedAddresses ++ SymbolTable.registers).map Prod.fst :=
    (find?_insertAll_source h).resolve_left (by simp)
  have hall : ∀ name ∈ (SymbolTable.namedAddresses ++ SymbolTable.registers).map Prod.fst,
      '/' ∉ name.toList := by
    decide +kernel
  exact hall name hmem

theorem operand_load {source : List String} (h : Assembled source p) (r : Register) :
    p.operand (.load r) = r.address :=
  operand_symbol p (isName_register r) (h.predefined _ _ (predefined_register r))

/-- No symbol of an assembled program has a comment in it. -/
theorem not_slashes_infix_of_find? {source : List String} (h : Assembled source p) {name : String}
    {v : Word} (hfind : p.symbols.find? name = some v) : ¬ ['/', '/'] <:+: name.toList := by
  rcases h.source name (by simp [hfind]) with hpre | hlabel | hsymbol
  · exact Text.not_slashes_infix_of_not_mem (not_slash_mem_of_predefined hpre)
  · exact not_slashes_infix_of_mem_statements hlabel rfl
  · exact not_slashes_infix_of_mem_statements hsymbol rfl

/-- A variable that has an address is loaded from there, whatever the name of its file. -/
theorem operand_static (h : Assembled (lines.map Line.render) p) {file : String} {index : UInt16}
    {v : Word} (hfind : p.symbols.find? (Symbol.static file index).name = some v) :
    p.operand (.symbol (.static file index)) = v := by
  -- A file's name may hold anything, but the assembler has read this one.
  have hfile : ¬ ['/', '/'] <:+: file.toList := by
    intro hinf
    refine not_slashes_infix_of_find? h hfind (hinf.trans ?_)
    rw [toList_static]
    exact (List.prefix_append _ _).isInfix
  simp [Program.operand, statement?_static hfile, hfind]

end Machine

end HackVM
