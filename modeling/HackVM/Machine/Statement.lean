import HackVM.Asm.Computation
import HackVM.Machine.Memory
import HackVM.Text.Blank
import HackVM.Text.Decimal

namespace HackVM.Machine

open Asm

/-!
# Statements of an assembly text

Each line that is not blank or a comment is a statement. Every text is some statement: what the
machine cannot compute, or does not know as a condition for a jump, is found when the line is read
and raised only when the instruction runs.

* `Fault` is what the machine can stop with;
* `Statement` is what a line can be, and `Statement.ofText` reads it;
* `statements` reads a list of lines.
-/

/-- What the machine can stop with. -/
inductive Fault where
  /-- A computation uses an operand that does not exist. -/
  | badOperand (c : Char)
  /-- A computation has a form that does not exist. -/
  | unsupportedComputation (text : String)
  /-- A condition for a jump does not exist. -/
  | badJump (text : String)
  /-- The top of the stack was asked for, and the stack pointer is zero. -/
  | noTop
  /-- The top of the stack was asked for at an index outside the memory. -/
  | outsideMemory (index : Nat)
  deriving DecidableEq, Repr

/-- The text of a fault. -/
def Fault.message : Fault → String
  | badOperand c => "bad operand " ++ String.ofList [c]
  | unsupportedComputation text => "unsupported comp " ++ text
  | badJump text => "bad jump " ++ text
  | noTop => "attempt to subtract with overflow"
  | outsideMemory index =>
    "index out of bounds: the len is 65536 but the index is " ++ toString index

/-! ### The parts of an instruction -/

/-- Reads an operand. -/
def readOperand (c : Char) : Except Fault Operand :=
  match Operand.ofChar? c with
  | some x => .ok x
  | none => .error (.badOperand c)

/-- Reads two operands, the left one first, and combines them. -/
def readOperands (combine : Operand → Operand → Computation) (x y : Char) :
    Except Fault Computation := do
  let x ← readOperand x
  let y ← readOperand y
  return combine x y

/-- Reads a computation. -/
def readComputation : List Char → Except Fault Computation
  | [x] => (readOperand x).map .value
  | ['-', x] => (readOperand x).map .negate
  | ['!', x] => (readOperand x).map .complement
  | [x, '+', y] => readOperands .add x y
  | [x, '-', y] => readOperands .subtract x y
  | [x, '&', y] => readOperands .and x y
  | [x, '|', y] => readOperands .or x y
  | text => .error (.unsupportedComputation (String.ofList text))

/-- Reads the condition for a jump. -/
def readJump (text : List Char) : Except Fault Jump :=
  match Jump.ofName? (String.ofList text) with
  | some jump => .ok jump
  | none => .error (.badJump (String.ofList text))

/-- Reads a number of at most 16 bits, which a plus sign may precede and nothing may follow. -/
def readNumber? (cs : List Char) : Option Word := do
  let digits := match cs with
    | '+' :: rest => rest
    | cs => cs
  guard (digits ≠ [] ∧ digits.all Char.isDigit)
  let n := Text.digitsValue digits
  guard (n < 65536)
  return BitVec.ofNat 16 n

/-- Splits a text at the first occurrence of a character, which is left out. -/
def splitFirst? (c : Char) (cs : List Char) : Option (List Char × List Char) :=
  match cs.dropWhile (· ≠ c) with
  | [] => none
  | _ :: after => some (cs.takeWhile (· ≠ c), after)

/-! ### Statements -/

/-- What a line of assembly can be. -/
inductive Statement where
  /-- Gives the address of the next instruction a name. -/
  | label (name : String)
  /-- A parenthesis that is not closed: it takes up an address and gives no instruction. -/
  | unclosed
  /-- Loads a number into `A`. -/
  | number (value : Word)
  /-- Loads the address of a symbol into `A`. -/
  | symbol (name : String)
  /-- Computes, stores and jumps. -/
  | compute (dest : Destination) (comp : Except Fault Computation)
      (jump : Option (Except Fault Jump))

namespace Statement

/-- Reads a compute instruction. -/
def ofCompute (text : List Char) : Statement :=
  let (rest, jump) := match splitFirst? ';' text with
    | some (rest, jump) => (rest, some (readJump jump))
    | none => (text, none)
  match splitFirst? '=' rest with
  | some (dest, comp) => .compute (Destination.ofLetters dest) (readComputation comp) jump
  | none => .compute .nowhere (readComputation rest) jump

/-- Reads a line without its comment and without blank characters at the ends. -/
def ofText : List Char → Statement
  | '(' :: rest =>
    if rest.getLast? = some ')' then .label (String.ofList rest.dropLast) else .unclosed
  | '@' :: rest =>
    match readNumber? rest with
    | some value => .number value
    | none => .symbol (String.ofList rest)
  | text => ofCompute text

end Statement

/-- The statements of a list of lines. -/
def statements (lines : List String) : List Statement :=
  ((lines.map fun line => Text.bare line.toList).filter (· ≠ [])).map Statement.ofText

end HackVM.Machine
