import HackVM.Asm.Computation
import HackVM.Text.Decimal

namespace HackVM.Asm

/-!
# Lines of assembly

The compiler's output, line by line, before it is written as text. Symbols keep their origin, so
that one can say where a label comes from without looking at its letters.

* `Register` and `Symbol` are what an address instruction can name;
* `Line` is a comment, a label, an address instruction or a compute instruction;
* `Line.render` is the text of a line, and `render` that of a list of lines.
-/

/-- The words of memory that have a name of their own and that compiled code uses. -/
inductive Register where
  /-- The address after the top of the stack. -/
  | sp
  /-- The address of the local variables. -/
  | lcl
  /-- The address of the arguments. -/
  | arg
  /-- The address of the segment `this`. -/
  | this
  /-- The address of the segment `that`. -/
  | that
  /-- Holds the address that a pop stores to. -/
  | r13
  /-- Holds the frame of a returning function. -/
  | r14
  /-- Holds the return address of a returning function. -/
  | r15
  deriving DecidableEq, Repr

/-- The name of a register. -/
def Register.name : Register → String
  | sp => "SP"
  | lcl => "LCL"
  | arg => "ARG"
  | this => "THIS"
  | that => "THAT"
  | r13 => "R13"
  | r14 => "R14"
  | r15 => "R15"

/-- The symbols of compiled code. -/
inductive Symbol where
  /-- A named word of memory. -/
  | register (r : Register)
  /-- Where a comparison goes on if it holds, by the comparison's number. -/
  | comparisonHolds (number : Nat)
  /-- Where a comparison ends, by the comparison's number. -/
  | comparisonEnd (number : Nat)
  /-- Where a call returns to, by the call's number. -/
  | returnPoint (number : Nat)
  /-- The entry of a function. -/
  | function (name : String)
  /-- A label inside a function. -/
  | localLabel (owner label : String)
  /-- A variable of a source file. -/
  | static (file : String) (index : UInt16)
  deriving DecidableEq, Repr

/-- The name of a symbol. -/
def Symbol.name : Symbol → String
  | register r => r.name
  | comparisonHolds number => "JUMP_TRUE_" ++ toString number
  | comparisonEnd number => "JUMP_END_" ++ toString number
  | returnPoint number => "RETURN_" ++ toString number
  | function name => name
  | localLabel owner label => owner ++ "$" ++ label
  | static file index => file ++ "." ++ toString index.toNat

/-- The lines of compiled code. -/
inductive Line where
  /-- A comment. -/
  | comment (text : String)
  /-- Gives the address of the next instruction a name. -/
  | label (symbol : Symbol)
  /-- Loads a number into `A`. -/
  | number (n : Nat)
  /-- Loads the value of a symbol into `A`. -/
  | symbol (symbol : Symbol)
  /-- Computes, stores and jumps. -/
  | compute (dest : Destination) (comp : Computation) (jump : Option Jump)
  deriving DecidableEq, Repr

namespace Line

/-- Loads the address of a register into `A`. -/
def load (r : Register) : Line := .symbol (.register r)

/-- Computes and stores, without a jump. -/
def set (dest : Destination) (comp : Computation) : Line := .compute dest comp none

/-- Computes and jumps, without storing. -/
def jump (comp : Computation) (condition : Jump) : Line :=
  .compute .nowhere comp (some condition)

/-- The text of a line. -/
def render : Line → String
  | comment text => "// " ++ text
  | label s => "(" ++ s.name ++ ")"
  | number n => "@" ++ toString n
  | symbol s => "@" ++ s.name
  | compute dest comp jump => String.ofList (spellCompute dest comp jump)

/-- Whether a line is a comment. -/
def isComment : Line → Bool
  | comment _ => true
  | _ => false

end Line

/-- The text of lines, each ended by a newline. -/
def render (lines : List Line) : String :=
  String.join (lines.map fun line => line.render ++ "\n")

end HackVM.Asm
