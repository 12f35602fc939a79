import HackVM.Machine.Statement
import HackVM.Machine.SymbolTable

namespace HackVM.Machine

open Asm

/-!
# Assembling

Statements become instructions in two passes. The first gives each label the address of the
instruction after it. The second looks symbols up; one that is still unknown is a variable, and
variables get the addresses from 16 on in the order in which they are first used.

* `bindLabels` is the first pass and `place` the second;
* `assemble` does both, and `LoadFault` is what can go wrong.
-/

/-- What can go wrong while a program is assembled. -/
inductive LoadFault where
  /-- A label is defined again, or is a symbol that is known beforehand. -/
  | labelTwice (name : String)
  /-- There are more instructions than addresses for labels. -/
  | tooManyInstructions
  /-- There are more variables than addresses. -/
  | tooManyVariables
  deriving DecidableEq, Repr

/-- The text of a fault. -/
def LoadFault.message : LoadFault → String
  | labelTwice name => "label " ++ name ++ " defined twice"
  | tooManyInstructions | tooManyVariables => "attempt to add with overflow"

/-- The instructions of the machine. -/
inductive Instruction where
  /-- Loads a word into `A`. -/
  | load (value : Word)
  /-- Computes, stores and jumps. -/
  | compute (dest : Destination) (comp : Except Fault Computation)
      (jump : Option (Except Fault Jump))

/-- The number of addresses. -/
def addressCount : Nat := 65536

/-- The first address for variables. -/
def firstVariable : Nat := 16

/-! ### Labels -/

/-- The first pass so far. -/
structure Labels where
  /-- The address of the next instruction. -/
  address : Nat
  /-- The symbols known so far. -/
  symbols : SymbolTable

/-- Adds a statement to the first pass. -/
def Labels.add (l : Labels) : Statement → Except LoadFault Labels
  | .label name =>
    match l.symbols.find? name with
    | some _ => .error (.labelTwice name)
    | none => .ok { l with symbols := l.symbols.insert name (BitVec.ofNat 16 l.address) }
  | _ =>
    if l.address + 1 < addressCount then .ok { l with address := l.address + 1 }
    else .error .tooManyInstructions

/-- The symbols known after the first pass. -/
def bindLabels (program : List Statement) : Except LoadFault SymbolTable :=
  (program.foldlM Labels.add ⟨0, .predefined⟩).map Labels.symbols

/-! ### Instructions -/

/-- The second pass so far. -/
structure Placement where
  /-- The instructions. -/
  rom : Array Instruction
  /-- The symbols known so far. -/
  symbols : SymbolTable
  /-- The address of the next variable. -/
  nextVariable : Nat

/-- Adds a statement to the second pass. -/
def Placement.add (p : Placement) : Statement → Except LoadFault Placement
  | .label _ | .unclosed => .ok p
  | .number value => .ok { p with rom := p.rom.push (.load value) }
  | .compute dest comp jump => .ok { p with rom := p.rom.push (.compute dest comp jump) }
  | .symbol name =>
    match p.symbols.find? name with
    | some value => .ok { p with rom := p.rom.push (.load value) }
    | none =>
      if p.nextVariable + 1 < addressCount then
        let value := BitVec.ofNat 16 p.nextVariable
        .ok ⟨p.rom.push (.load value), p.symbols.insert name value, p.nextVariable + 1⟩
      else .error .tooManyVariables

/-- The instructions of a program whose labels are known, and all its symbols. -/
def place (labels : SymbolTable) (program : List Statement) : Except LoadFault Placement :=
  program.foldlM Placement.add ⟨#[], labels, firstVariable⟩

/-! ### Programs -/

/-- A program that is ready to run. -/
structure Program where
  /-- The instructions. -/
  rom : Array Instruction
  /-- The address of every symbol. -/
  symbols : SymbolTable

/-- Assembles a list of lines. -/
def assemble (lines : List String) : Except LoadFault Program := do
  let program := statements lines
  let placement ← place (← bindLabels program) program
  return ⟨placement.rom, placement.symbols⟩

end HackVM.Machine
