import HackVM.Codegen.Block

namespace HackVM.Codegen

open Asm

/-!
# Compiling commands in order

The code of a command depends on what was compiled before it in three ways only: comparisons and
calls are numbered through the whole program, so that their labels never meet, and a label belongs
to the function declared last. An `Emitter` is that history.

* `Emitter.code` is the code of a command after a history, and `Emitter.after` the history with the
  command added;
* `Emitter.emit` gives both, and refuses the one constant that has no negation;
* `Emitter.codeAll` and `Emitter.afterAll` do the same for a list of commands;
* `Emitter.bootstrap` and `Emitter.afterBootstrap` are for the code that starts a program.
-/

/-- The history that code depends on. -/
structure Emitter where
  /-- The number of comparisons so far. -/
  comparisons : Nat := 0
  /-- The number of calls so far. -/
  calls : Nat := 0
  /-- The function declared last; empty before the first. -/
  function : String := ""
  /-- Whether each command's code is preceded by the command as a comment. -/
  annotate : Bool := false
  deriving DecidableEq, Repr

/-- Why a command has no code. -/
inductive EmitFault where
  /-- The least 32-bit number has no negation among the 32-bit numbers. -/
  | negationOverflow
  deriving DecidableEq, Repr

/-- The text of a fault. -/
def EmitFault.message : EmitFault → String
  | negationOverflow => "attempt to negate with overflow"

namespace Emitter

/-- A comment, if comments are wanted. -/
def note (e : Emitter) (text : String) : List Line :=
  if e.annotate then [.comment text] else []

/-- The instructions and labels of a command. -/
def body (e : Emitter) (file : String) : Command → List Line
  | .push segment index => pushCode file segment index.toInt
  | .pop segment index => popCode file segment index
  | .operate operator => operatorCode (e.comparisons + 1) operator
  | .label name => [.label (.localLabel e.function name)]
  | .goto name => gotoCode (.localLabel e.function name)
  | .ifGoto name => ifGotoCode (.localLabel e.function name)
  | .function name locals => functionCode name locals
  | .call name arguments => callCode (e.calls + 1) name arguments
  | .ret => returnCode

/-- The code of a command of a source file. -/
def code (e : Emitter) (file : String) (c : Command) : List Line :=
  e.note c.render ++ e.body file c

/-- The history with a command added. -/
def after (e : Emitter) : Command → Emitter
  | .operate operator =>
    if (comparison? operator).isSome then { e with comparisons := e.comparisons + 1 } else e
  | .function name _ => { e with function := name }
  | .call .. => { e with calls := e.calls + 1 }
  | _ => e

/-- The code that starts a program: it sets up the stack and calls the entry function. -/
def bootstrap (e : Emitter) : List Line :=
  e.note "bootstrap" ++ stackSetup ++ callCode (e.calls + 1) entryFunction 0

/-- The history with the start of a program added. -/
def afterBootstrap (e : Emitter) : Emitter :=
  { e with calls := e.calls + 1 }

/-! ### Lists of commands -/

/-- The history with commands added in order. -/
def afterAll (e : Emitter) (commands : List Command) : Emitter :=
  commands.foldl after e

/-- The code of the commands of a source file, in order. -/
def codeAll (e : Emitter) (file : String) : List Command → List Line
  | [] => []
  | c :: commands => e.code file c ++ (e.after c).codeAll file commands

@[simp] theorem afterAll_nil (e : Emitter) : e.afterAll [] = e := rfl

@[simp] theorem afterAll_cons (e : Emitter) (c : Command) (commands : List Command) :
    e.afterAll (c :: commands) = (e.after c).afterAll commands := rfl

/-! ### The constant without a negation -/

/-- The code of a command and the history with it added. A command that no code can be given for
    leaves no trace in the history. -/
def emit (e : Emitter) (file : String) (c : Command) : Except EmitFault (List Line × Emitter) :=
  if c = .push .constant Int32.minValue then .error .negationOverflow
  else .ok (e.code file c, e.after c)

end Emitter

end HackVM.Codegen
