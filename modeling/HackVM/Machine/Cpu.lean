import HackVM.Machine.Assemble

namespace HackVM.Machine

open Asm

/-!
# Running a program

The machine has two registers, a memory and a counter that says which instruction comes next. A
step runs one instruction; a run goes on until the counter leaves the program, a number of steps
has been made, or an instruction faults.

* `computationValue` and `jumpHolds` give meaning to the parts of an instruction;
* `Cpu.execute` runs an instruction and `Cpu.run` a program, and `Cpu.run_add` splits a run;
* `Cpu.runEffect` and `Cpu.trace` report what a run, or each of its steps, did to the memory.
-/

/-! ### The parts of an instruction -/

/-- The value of an operand, given the registers and the word that `A` points to. -/
def operandValue (a d m : Word) : Operand → Word
  | .a => a
  | .d => d
  | .m => m
  | .zero => 0
  | .one => 1

/-- The value of a computation, given the registers and the word that `A` points to. -/
def computationValue (a d m : Word) : Computation → Word
  | .value x => operandValue a d m x
  | .negate x => -operandValue a d m x
  | .complement x => ~~~operandValue a d m x
  | .add x y => operandValue a d m x + operandValue a d m y
  | .subtract x y => operandValue a d m x - operandValue a d m y
  | .and x y => operandValue a d m x &&& operandValue a d m y
  | .or x y => operandValue a d m x ||| operandValue a d m y

/-- Whether a word, as a signed number, meets the condition for a jump. -/
def jumpHolds (value : Word) : Jump → Bool
  | .ifPositive => 0 < value.toInt
  | .ifZero => value.toInt = 0
  | .ifNotNegative => 0 ≤ value.toInt
  | .ifNegative => value.toInt < 0
  | .ifNotZero => value.toInt ≠ 0
  | .ifNotPositive => value.toInt ≤ 0
  | .always => true

/-! ### The machine -/

/-- The state of the machine. -/
structure Cpu where
  /-- The memory. -/
  ram : Memory
  /-- The register `A`. -/
  a : Word
  /-- The register `D`. -/
  d : Word
  /-- The number of the next instruction. -/
  pc : Nat

namespace Cpu

/-- The machine when it is switched on. -/
def start : Cpu := ⟨.blank, 0, 0, 0⟩

/-- The word that `A` points to. -/
def m (c : Cpu) : Word := c.ram.read c.a

/-- Stores a word in the given places. The word in memory goes to where `A` pointed before. -/
def store (c : Cpu) (dest : Destination) (value : Word) : Cpu :=
  { c with
    ram := if dest.toM then c.ram.write c.a value else c.ram
    a := if dest.toA then value else c.a
    d := if dest.toD then value else c.d }

/-- Runs an instruction. A computation that faults changes nothing; a jump that faults comes after
    the result was stored, and the counter stays. A jump goes to where `A` pointed before. -/
def execute (c : Cpu) : Instruction → Cpu × Option Fault
  | .load value => ({ c with a := value, pc := c.pc + 1 }, none)
  | .compute dest comp jump =>
    match comp with
    | .error fault => (c, some fault)
    | .ok comp =>
      let value := computationValue c.a c.d c.m comp
      let stored := c.store dest value
      match jump with
      | none => ({ stored with pc := c.pc + 1 }, none)
      | some (.error fault) => (stored, some fault)
      | some (.ok condition) =>
        ({ stored with pc := if jumpHolds value condition then c.a.toNat else c.pc + 1 }, none)

/-- Runs a program for a number of steps at most, until the counter leaves it or an instruction
    faults. -/
def run (rom : Array Instruction) : Nat → Cpu → Cpu × Option Fault
  | 0, c => (c, none)
  | steps + 1, c =>
    match rom[c.pc]? with
    | none => (c, none)
    | some instruction =>
      match c.execute instruction with
      | (c, none) => run rom steps c
      | (c, some fault) => (c, some fault)

@[simp] theorem run_zero (rom : Array Instruction) (c : Cpu) : c.run rom 0 = (c, none) := rfl

/-- A run of several steps is a run of the first of them and, unless that faults, of the others. -/
theorem run_add (rom : Array Instruction) (first second : Nat) (c : Cpu) :
    c.run rom (first + second) =
      match c.run rom first with
      | (c, none) => c.run rom second
      | (c, some fault) => (c, some fault) := by
  induction first generalizing c with
  | zero => simp
  | succ first ih =>
    rw [Nat.succ_add]
    cases hi : rom[c.pc]? with
    | none => cases second <;> simp [run, hi]
    | some instruction =>
      cases hc : c.execute instruction with
      | mk after fault =>
        cases fault with
        | none => simp [run, hi, hc, ih]
        | some fault => simp [run, hi, hc]

/-- What a run did to the memory: the words it changed, and the fault it stopped with. -/
structure Effect where
  /-- The words that changed, by address in increasing order. -/
  changed : List (Nat × Word)
  /-- The fault that stopped the run. -/
  fault : Option Fault

/-- Runs a program and reports what that did to the memory. -/
def runEffect (rom : Array Instruction) (steps : Nat) (c : Cpu) : Cpu × Effect :=
  let (after, fault) := c.run rom steps
  (after, ⟨c.ram.changes after.ram, fault⟩)

/-- Runs a program one step at a time, and reports what each did to the memory. A fault does not
    keep the next step from being tried. -/
def trace (rom : Array Instruction) (steps : Nat) (c : Cpu) : Cpu × List Effect :=
  let (after, effects) := steps.fold (fun _ _ (c, effects) =>
    let (c, effect) := runEffect rom 1 c
    (c, effect :: effects)) (c, [])
  (after, effects.reverse)

/-! ### Looking at the machine -/

/-- The machine with one word of memory replaced. -/
def poke (c : Cpu) (address value : Word) : Cpu :=
  { c with ram := c.ram.write address value }

/-- The word at an address. -/
def peek (c : Cpu) (address : Word) : Word :=
  c.ram.read address

/-- The stack pointer, which is the word at address 0. -/
def stackPointer (c : Cpu) : Word :=
  c.peek 0

/-- The word below the stack pointer, which counts as a signed number here. There is none if the
    stack pointer is zero, and a negative one points, as a 64-bit index, outside the memory. -/
def top (c : Cpu) : Except Fault Word :=
  let sp := c.stackPointer.toInt
  if sp = 0 then .error .noTop
  else if sp < 0 then .error (.outsideMemory (UInt64.size + sp - 1).toNat)
  else .ok (c.peek (c.stackPointer - 1))

end Cpu

end HackVM.Machine
