namespace HackVM.Asm

/-!
# Computations of the Hack machine

A compute instruction has three parts: the destinations that take the result, the computation, and
the condition on the result under which the machine jumps. Each has a short spelling, and the
instruction is spelled `dest=comp;jump`, where the first and the last part may be missing.

* `Operand`, `Computation`, `Destination` and `Jump` are the parts, each with its spelling;
* `Operand.ofChar?`, `Destination.ofLetters` and `Jump.ofName?` read a spelling back;
* `spellCompute` is the spelling of an instruction.
-/

/-- What a computation can use: the two registers, the word that `A` points to, and two
    constants. -/
inductive Operand where
  | a
  | d
  | m
  | zero
  | one
  deriving DecidableEq, Repr

namespace Operand

/-- The spelling of an operand. -/
def char : Operand → Char
  | a => 'A'
  | d => 'D'
  | m => 'M'
  | zero => '0'
  | one => '1'

/-- The operand with a given spelling. -/
def ofChar? : Char → Option Operand
  | 'A' => some a
  | 'D' => some d
  | 'M' => some m
  | '0' => some zero
  | '1' => some one
  | _ => none

@[simp] theorem ofChar?_char (x : Operand) : ofChar? x.char = some x := by
  cases x <;> rfl

end Operand

/-- The computations. -/
inductive Computation where
  | value (x : Operand)
  | negate (x : Operand)
  | complement (x : Operand)
  | add (x y : Operand)
  | subtract (x y : Operand)
  | and (x y : Operand)
  | or (x y : Operand)
  deriving DecidableEq, Repr

/-- The spelling of a computation. -/
def Computation.spelling : Computation → List Char
  | value x => [x.char]
  | negate x => ['-', x.char]
  | complement x => ['!', x.char]
  | add x y => [x.char, '+', y.char]
  | subtract x y => [x.char, '-', y.char]
  | and x y => [x.char, '&', y.char]
  | or x y => [x.char, '|', y.char]

/-- The places that take the result of a computation. -/
structure Destination where
  /-- The register `A` takes the result. -/
  toA : Bool
  /-- The register `D` takes the result. -/
  toD : Bool
  /-- The word that `A` points to takes the result. -/
  toM : Bool
  deriving DecidableEq, Repr

namespace Destination

/-- No place: the result is only looked at. -/
def nowhere : Destination := ⟨false, false, false⟩

/-- The register `A`. -/
def a : Destination := ⟨true, false, false⟩

/-- The register `D`. -/
def d : Destination := ⟨false, true, false⟩

/-- The word that `A` points to. -/
def m : Destination := ⟨false, false, true⟩

/-- The letters of the places that take the result. -/
def spelling (dest : Destination) : List Char :=
  (if dest.toA then ['A'] else []) ++ (if dest.toM then ['M'] else []) ++
    (if dest.toD then ['D'] else [])

/-- The destination with given letters. Other characters, and the order, do not matter. -/
def ofLetters (letters : List Char) : Destination :=
  ⟨letters.contains 'A', letters.contains 'D', letters.contains 'M'⟩

@[simp] theorem ofLetters_spelling (dest : Destination) : ofLetters dest.spelling = dest := by
  obtain ⟨toA, toD, toM⟩ := dest
  cases toA <;> cases toD <;> cases toM <;> rfl

end Destination

/-- The conditions for a jump. -/
inductive Jump where
  | ifPositive
  | ifZero
  | ifNotNegative
  | ifNegative
  | ifNotZero
  | ifNotPositive
  | always
  deriving DecidableEq, Repr

namespace Jump

/-- The spelling of a condition. -/
def name : Jump → String
  | ifPositive => "JGT"
  | ifZero => "JEQ"
  | ifNotNegative => "JGE"
  | ifNegative => "JLT"
  | ifNotZero => "JNE"
  | ifNotPositive => "JLE"
  | always => "JMP"

/-- The condition with a given spelling. -/
def ofName? : String → Option Jump
  | "JGT" => some ifPositive
  | "JEQ" => some ifZero
  | "JGE" => some ifNotNegative
  | "JLT" => some ifNegative
  | "JNE" => some ifNotZero
  | "JLE" => some ifNotPositive
  | "JMP" => some always
  | _ => none

@[simp] theorem ofName?_name (j : Jump) : ofName? j.name = some j := by
  cases j <;> rfl

end Jump

/-- The spelling of a compute instruction. -/
def spellCompute (dest : Destination) (comp : Computation) (jump : Option Jump) : List Char :=
  (if dest = Destination.nowhere then [] else dest.spelling ++ ['=']) ++ comp.spelling ++
    (match jump with
      | none => []
      | some j => ';' :: j.name.toList)

end HackVM.Asm
