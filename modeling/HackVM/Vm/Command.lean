import HackVM.Text.Decimal

namespace HackVM

/-!
# Commands of the virtual machine

The virtual machine works on one stack of 16-bit words and on eight memory segments. A program is a
list of commands: pushes and pops, operators on the top of the stack, labels and jumps, and
function declarations, calls and returns.

* `Segment`, `Operator` and `Command` are the vocabulary;
* `Command.kindName`, `Command.firstOperand` and `Command.secondOperand` take a command apart;
* `Command.words` is the written form of a command as a list of words, and `Command.render` puts
  one space between them.
-/

/-- The memory segments. -/
inductive Segment where
  /-- The constants: pushing from it pushes the index itself. -/
  | constant
  /-- The local variables of the running function. -/
  | locals
  /-- The variables of the source file. -/
  | statics
  /-- The arguments of the running function. -/
  | arguments
  /-- The words from the address in `THIS` on. -/
  | this
  /-- The words from the address in `THAT` on. -/
  | that
  /-- The two registers `THIS` and `THAT`. -/
  | pointer
  /-- Eight words shared by all functions. -/
  | temp
  deriving DecidableEq, Repr

namespace Segment

/-- All segments, in the order in which a reader tries their names. -/
def all : List Segment :=
  [constant, locals, statics, arguments, this, that, pointer, temp]

/-- The word for a segment. -/
def name : Segment → String
  | constant => "constant"
  | locals => "local"
  | statics => "static"
  | arguments => "argument"
  | this => "this"
  | that => "that"
  | pointer => "pointer"
  | temp => "temp"

theorem mem_all (s : Segment) : s ∈ all := by
  cases s <;> decide

end Segment

/-- The operators on the top of the stack. -/
inductive Operator where
  | add
  | sub
  | neg
  | eq
  | gt
  | lt
  | and
  | or
  | not
  deriving DecidableEq, Repr

namespace Operator

/-- All operators, in the order in which a reader tries their names. -/
def all : List Operator :=
  [add, sub, neg, eq, gt, lt, and, or, not]

/-- The word for an operator. -/
def name : Operator → String
  | add => "add"
  | sub => "sub"
  | neg => "neg"
  | eq => "eq"
  | gt => "gt"
  | lt => "lt"
  | and => "and"
  | or => "or"
  | not => "not"

theorem mem_all (o : Operator) : o ∈ all := by
  cases o <;> decide

end Operator

/-- The commands. -/
inductive Command where
  /-- Pushes the word at an index of a segment; a constant may be negative. -/
  | push (segment : Segment) (index : Int32)
  /-- Pops the top of the stack into the word at an index of a segment. -/
  | pop (segment : Segment) (index : UInt16)
  /-- Applies an operator to the top of the stack. -/
  | operate (operator : Operator)
  /-- Marks a place in the running function. -/
  | label (name : String)
  /-- Continues at a label. -/
  | goto (name : String)
  /-- Pops the top of the stack and continues at a label unless it is zero. -/
  | ifGoto (name : String)
  /-- Starts a function with a number of local variables. -/
  | function (name : String) (locals : UInt16)
  /-- Calls a function with a number of arguments from the stack. -/
  | call (name : String) (arguments : UInt16)
  /-- Returns to the caller with the top of the stack as the result. -/
  | ret
  deriving DecidableEq, Repr

namespace Command

/-- The word for a command's kind. -/
def kindName : Command → String
  | push .. => "Push"
  | pop .. => "Pop"
  | operate _ => "Arithmetic"
  | label _ => "Label"
  | goto _ => "Goto"
  | ifGoto _ => "IfGoto"
  | function .. => "Function"
  | call .. => "Call"
  | ret => "Return"

/-- The first operand: the name of a segment, an operator, a label or a function. -/
def firstOperand : Command → Option String
  | push segment _ | pop segment _ => some segment.name
  | operate operator => some operator.name
  | label name | goto name | ifGoto name => some name
  | function name _ | call name _ => some name
  | ret => none

/-- The second operand: an index, a number of local variables or a number of arguments. -/
def secondOperand : Command → Option Int
  | push _ index => some index.toInt
  | pop _ index => some index.toNat
  | function _ count | call _ count => some count.toNat
  | _ => none

/-! ### The written form -/

/-- The words of a command. -/
def words : Command → List String
  | push segment index => ["push", segment.name, String.ofList (Text.signedDecimal index.toInt)]
  | pop segment index => ["pop", segment.name, String.ofList (Text.decimal index.toNat)]
  | operate operator => [operator.name]
  | label name => ["label", name]
  | goto name => ["goto", name]
  | ifGoto name => ["if-goto", name]
  | function name locals => ["function", name, String.ofList (Text.decimal locals.toNat)]
  | call name arguments => ["call", name, String.ofList (Text.decimal arguments.toNat)]
  | ret => ["return"]

/-- The written form of a command: its words with one space between them. -/
def render (c : Command) : String :=
  String.intercalate " " c.words

end Command

end HackVM
