import HackVM.Asm.Line
import HackVM.Vm.Command

namespace HackVM.Codegen

open Asm
open Asm.Line

/-!
# The code of each command

Every command becomes a fixed pattern of instructions, a block. A block keeps to one discipline:
`SP` holds the address after the top of the stack, values travel through `D`, and the only other
words of memory it uses as scratch are `R13` for the target of a pop and `R14`, `R15` for the frame
and the return address of a return.

* `pushD` and `popD` move `D` onto the stack and off it;
* `pushCode` and `popCode` reach the segments, `operatorCode` computes on the top of the stack;
* `callCode`, `functionCode` and `returnCode` build and take down the frame of a call.
-/

/-- The first address of the stack. -/
def stackBase : Nat := 256

/-- The first address of the segment `temp`. -/
def tempBase : Nat := 5

/-- The number of words that a call saves: the return address and four registers. -/
def frameSize : Nat := 5

/-- The function that a program starts with. -/
def entryFunction : String := "Sys.init"

/-! ### The stack -/

/-- Stores `D` on top of the stack. -/
def pushD : List Line :=
  [load .sp, set .a (.value .m), set .m (.value .d), load .sp, set .m (.add .m .one)]

/-- Takes the top of the stack into `D`. -/
def popD : List Line :=
  [load .sp, set .m (.subtract .m .one), set .a (.value .m), set .d (.value .m)]

/-- Points `A` at the top of the stack. -/
def pointAtTop : List Line :=
  [load .sp, set .a (.subtract .m .one)]

/-- Pushes the word that a symbol names. -/
def pushSymbol (s : Symbol) : List Line :=
  [.symbol s, set .d (.value .m)] ++ pushD

/-- Pops into the word whose address is in `D`, with `R13` to keep the address. -/
def popToD : List Line :=
  [load .r13, set .m (.value .d)] ++ popD ++
    [load .r13, set .a (.value .m), set .m (.value .d)]

/-! ### The segments -/

/-- The register that holds the address of a segment. -/
def baseRegister : Segment → Register
  | .locals => .lcl
  | .arguments => .arg
  | .this => .this
  | _ => .that

/-- The register at an index of the segment `pointer`. -/
def pointerRegister (index : UInt16) : Register :=
  if index = 0 then .this else .that

/-- Pushes the word at an index from an address, which the operand gives once the line has been
    loaded. -/
def pushIndexed (base : Line) (address : Operand) (index : UInt16) : List Line :=
  [.number index.toNat, set .d (.value .a), base, set .a (.add address .d), set .d (.value .m)] ++
    pushD

/-- Pops into the word at an index from an address, which the operand gives once the line has been
    loaded. -/
def popIndexed (base : Line) (address : Operand) (index : UInt16) : List Line :=
  [.number index.toNat, set .d (.value .a), base, set .d (.add address .d)] ++ popToD

/-- Pushes a constant. An address instruction loads only numbers that are not negative, so a
    negative constant is negated after it is loaded. -/
def pushConstant (n : Int) : List Line :=
  [.number n.natAbs, set .d (if n < 0 then .negate .a else .value .a)] ++ pushD

/-- The index of a push from a segment other than the constants; an index that is no address
    counts as zero. -/
def indexOf (n : Int) : UInt16 :=
  if 0 ≤ n ∧ n < UInt16.size then UInt16.ofNat n.toNat else 0

/-- Pushes the word at an index of a segment, in a given source file. -/
def pushCode (file : String) (segment : Segment) (n : Int) : List Line :=
  match segment with
  | .constant => pushConstant n
  | .locals | .arguments | .this | .that =>
    pushIndexed (load (baseRegister segment)) .m (indexOf n)
  | .temp => pushIndexed (.number tempBase) .a (indexOf n)
  | .pointer => pushSymbol (.register (pointerRegister (indexOf n)))
  | .statics => pushSymbol (.static file (indexOf n))

/-- Pops into the word at an index of a segment, in a given source file. A constant cannot be
    stored to, so its value is dropped. -/
def popCode (file : String) (segment : Segment) (index : UInt16) : List Line :=
  match segment with
  | .constant => popD
  | .locals | .arguments | .this | .that => popIndexed (load (baseRegister segment)) .m index
  | .temp => popIndexed (.number tempBase) .a index
  | .pointer => [load (pointerRegister index), set .d (.value .a)] ++ popToD
  | .statics => popD ++ [.symbol (.static file index), set .m (.value .d)]

/-! ### The operators -/

/-- Replaces the top of the stack by a computation on it. -/
def unaryCode (comp : Computation) : List Line :=
  pointAtTop ++ [set .m comp]

/-- Takes the right operand into `D` and replaces the left one by a computation on both. -/
def binaryCode (comp : Computation) : List Line :=
  popD ++ pointAtTop ++ [set .m comp]

/-- Compares the two words on top of the stack by their difference, and leaves -1 for true and 0
    for false. The number tells this comparison's labels from those of others. -/
def compareCode (number : Nat) (condition : Jump) : List Line :=
  popD ++ pointAtTop ++
    [set .d (.subtract .m .d), .symbol (.comparisonHolds number), jump (.value .d) condition] ++
    pointAtTop ++
    [set .m (.value .zero), .symbol (.comparisonEnd number), jump (.value .zero) .always,
      .label (.comparisonHolds number)] ++
    pointAtTop ++ [set .m (.negate .one), .label (.comparisonEnd number)]

/-- The condition on the difference of its operands under which a comparison holds. -/
def comparison? : Operator → Option Jump
  | .eq => some .ifZero
  | .gt => some .ifPositive
  | .lt => some .ifNegative
  | _ => none

/-- The code of an operator; the number is that of a comparison. -/
def operatorCode (number : Nat) : Operator → List Line
  | .add => binaryCode (.add .m .d)
  | .sub => binaryCode (.subtract .m .d)
  | .and => binaryCode (.and .m .d)
  | .or => binaryCode (.or .m .d)
  | .neg => unaryCode (.negate .m)
  | .not => unaryCode (.complement .m)
  | .eq => compareCode number .ifZero
  | .gt => compareCode number .ifPositive
  | .lt => compareCode number .ifNegative

/-! ### Jumps -/

/-- Continues at a symbol. -/
def gotoCode (target : Symbol) : List Line :=
  [.symbol target, jump (.value .zero) .always]

/-- Takes the top of the stack and continues at a symbol unless it is zero. -/
def ifGotoCode (target : Symbol) : List Line :=
  popD ++ [.symbol target, jump (.value .d) .ifNotZero]

/-! ### Functions -/

/-- The registers that a call saves, in the order in which it pushes them. -/
def savedRegisters : List Register := [.lcl, .arg, .this, .that]

/-- Saves the return address and the caller's registers, points `ARG` at the arguments and `LCL`
    at the top of the stack, and continues at the function. The number tells this call's return
    point from those of others. -/
def callCode (number : Nat) (function : String) (arguments : UInt16) : List Line :=
  [.symbol (.returnPoint number), set .d (.value .a)] ++ pushD ++
    savedRegisters.flatMap (fun r => pushSymbol (.register r)) ++
    [load .sp, set .d (.value .m), .number (arguments.toNat + frameSize),
      set .d (.subtract .d .a), load .arg, set .m (.value .d),
      load .sp, set .d (.value .m), load .lcl, set .m (.value .d)] ++
    gotoCode (.function function) ++ [.label (.returnPoint number)]

/-- Pushes zero. -/
def pushZero : List Line :=
  [load .sp, set .a (.value .m), set .m (.value .zero), load .sp, set .m (.add .m .one)]

/-- The entry of a function, and a zero for each local variable. -/
def functionCode (name : String) (locals : UInt16) : List Line :=
  .label (.function name) :: (List.replicate locals.toNat pushZero).flatten

/-- Copies the word at an offset below the frame in `R14` into a register. -/
def restoreCode (r : Register) (offset : Nat) : List Line :=
  [load .r14, set .d (.value .m), .number offset, set .a (.subtract .d .a), set .d (.value .m),
    load r, set .m (.value .d)]

/-- Returns to the caller. The return address is fetched before the result is stored, because with
    no arguments the result takes its place. -/
def returnCode : List Line :=
  [load .lcl, set .d (.value .m), load .r14, set .m (.value .d)] ++
    restoreCode .r15 frameSize ++
    popIndexed (load .arg) .m 0 ++
    [load .arg, set .d (.value .m), load .sp, set .m (.add .d .one)] ++
    restoreCode .that 1 ++ restoreCode .this 2 ++ restoreCode .arg 3 ++ restoreCode .lcl 4 ++
    [load .r15, set .a (.value .m), jump (.value .zero) .always]

/-- Sets up the stack. -/
def stackSetup : List Line :=
  [.number stackBase, set .d (.value .a), load .sp, set .m (.value .d)]

end HackVM.Codegen
