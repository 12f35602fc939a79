import HackVM.Asm.Line
import HackVM.Machine.Memory
import Mathlib.Tactic.Tauto

namespace HackVM

open Machine

/-!
# The stack in memory

The virtual machine keeps its registers and its stack in the memory of the machine below it.  This
file gives the operations on them as operations on a whole memory, one write after the other, so
that they mean what they say also where the stack runs into the registers.

* `Memory.get` and `Memory.set` — the word of a register;
* `Memory.push`, `Memory.drop`, `Memory.top`, `Memory.popInto` — the stack;
* `Memory.enter` and `Memory.leave` — building and taking down the frame of a call;
* `Memory.Agree` — two memories differ at most in the scratch registers `R13`, `R14` and `R15`, and
  the operations above keep it so, as long as they do not read those.
-/

/-- The address of a register. -/
def Asm.Register.address : Register → Word
  | .sp => 0
  | .lcl => 1
  | .arg => 2
  | .this => 3
  | .that => 4
  | .r13 => 13
  | .r14 => 14
  | .r15 => 15

open Asm

namespace Machine.Memory

/-! ### Registers -/

/-- The word of a register. -/
def get (m : Memory) (r : Register) : Word :=
  m.read r.address

/-- The memory with the word of a register replaced. -/
def set (m : Memory) (r : Register) (value : Word) : Memory :=
  m.write r.address value

theorem read_address (m : Memory) (r : Register) : m.read r.address = m.get r := rfl

theorem write_address (m : Memory) (r : Register) (value : Word) :
    m.write r.address value = m.set r value := rfl

theorem address_inj {r r' : Register} (h : r.address = r'.address) : r = r' := by
  revert h
  cases r <;> cases r' <;> decide

@[simp] theorem get_set_self (m : Memory) (r : Register) (value : Word) :
    (m.set r value).get r = value :=
  read_write_self m r.address value

theorem get_set_of_ne (m : Memory) {r r' : Register} (value : Word) (h : r ≠ r') :
    (m.set r value).get r' = m.get r' := by
  rw [get, set, read_write, if_neg fun heq => h (address_inj heq)]
  rfl

theorem read_write_of_ne (m : Memory) {a b : Word} (value : Word) (h : a ≠ b) :
    (m.write a value).read b = m.read b := by
  rw [read_write, if_neg h]

theorem read_set (m : Memory) (r : Register) (value a : Word) :
    (m.set r value).read a = if a = r.address then value else m.read a := by
  rw [set, read_write]
  simp only [eq_comm]

theorem read_set_of_ne (m : Memory) {r : Register} {a : Word} (value : Word) (h : r.address ≠ a) :
    (m.set r value).read a = m.read a :=
  read_write_of_ne m value h

theorem get_write_of_ne (m : Memory) {r : Register} {a : Word} (value : Word) (h : a ≠ r.address) :
    (m.write a value).get r = m.get r :=
  read_write_of_ne m value h

/-! ### The stack -/

/-- Moves the stack pointer up. -/
def raise (m : Memory) : Memory :=
  m.set .sp (m.get .sp + 1)

/-- Stores a word where the stack pointer points and moves the pointer up. -/
def push (m : Memory) (value : Word) : Memory :=
  (m.write (m.get .sp) value).raise

/-- Moves the stack pointer down. -/
def drop (m : Memory) : Memory :=
  m.set .sp (m.get .sp - 1)

/-- The word where the stack pointer points, which `drop` has just taken off the stack. -/
def top (m : Memory) : Word :=
  m.read (m.get .sp)

/-- Takes a word off the stack and stores it at an address. -/
def popInto (m : Memory) (a : Word) : Memory :=
  m.drop.write a m.drop.top

/-- Replaces the word on top of the stack by a function of it. -/
def mapTop (m : Memory) (f : Word → Word) : Memory :=
  m.write (m.get .sp - 1) (f (m.read (m.get .sp - 1)))

/-- Takes the right operand off the stack and replaces the left one by a function of both. -/
def mapTops (m : Memory) (f : Word → Word → Word) : Memory :=
  m.drop.mapTop fun left => f left m.drop.top

theorem mapTops_eq (m : Memory) (f : Word → Word → Word) :
    m.mapTops f =
      m.drop.mapTop fun _ => f (m.drop.read (m.drop.get .sp - 1)) m.drop.top := by
  rw [mapTops, mapTop, mapTop]

/-- Pushes a number of zeros. -/
def pushZeros (m : Memory) : Nat → Memory
  | 0 => m
  | k + 1 => (m.push 0).pushZeros k

/-- Pushes the word of a register. -/
def pushRegister (m : Memory) (r : Register) : Memory :=
  m.push (m.get r)

/-! ### Frames -/

/-- Pushes a return address and the caller's registers. -/
def saveCaller (m : Memory) (back : Word) : Memory :=
  ((((m.push back).pushRegister .lcl).pushRegister .arg).pushRegister .this).pushRegister .that

/-- Points `ARG` at the arguments below a saved frame and `LCL` at the top of the stack. -/
def openFrame (m : Memory) (arguments : Word) : Memory :=
  (m.set .arg (m.get .sp - arguments - 5)).set .lcl (m.get .sp)

/-- What a call does: it saves the caller and opens a frame for the function. -/
def enter (m : Memory) (back arguments : Word) : Memory :=
  (m.saveCaller back).openFrame arguments

/-- Where a return continues. -/
def returnAddress (m : Memory) : Word :=
  m.read (m.get .lcl - 5)

/-- Cuts the stack off after the first argument. -/
def cutStack (m : Memory) : Memory :=
  m.set .sp (m.get .arg + 1)

/-- Copies the word at an address into a register. -/
def restore (m : Memory) (r : Register) (a : Word) : Memory :=
  m.set r (m.read a)

/-- Restores the caller's registers from the frame below an address. -/
def restoreCaller (m : Memory) (frame : Word) : Memory :=
  (((m.restore .that (frame - 1)).restore .this (frame - 2)).restore .arg (frame - 3)).restore .lcl
    (frame - 4)

/-- What a return does: it stores the result in place of the first argument, cuts the stack off
    after it, and restores the caller's registers. -/
def leave (m : Memory) : Memory :=
  (m.popInto (m.get .arg)).cutStack.restoreCaller (m.get .lcl)

/-! ### Memories that differ in the scratch registers -/

/-- The addresses of the registers that code uses as scratch. -/
def Scratch (a : Word) : Prop :=
  a = 13 ∨ a = 14 ∨ a = 15

instance (a : Word) : Decidable (Scratch a) :=
  inferInstanceAs (Decidable (_ ∨ _))

theorem not_scratch_of_le {a : Word} (h : 16 ≤ a.toNat) : ¬ Scratch a := by
  rintro (rfl | rfl | rfl) <;> simp at h

/-- Two memories differ at most in the scratch registers. -/
def Agree (m m' : Memory) : Prop :=
  ∀ a, ¬ Scratch a → m.read a = m'.read a

namespace Agree

variable {m m' m'' : Memory}

theorem refl (m : Memory) : Agree m m :=
  fun _ _ => rfl

theorem symm (h : Agree m m') : Agree m' m :=
  fun a ha => (h a ha).symm

theorem trans (h : Agree m m') (h' : Agree m' m'') : Agree m m'' :=
  fun a ha => (h a ha).trans (h' a ha)

theorem write (h : Agree m m') (a v : Word) : Agree (m.write a v) (m'.write a v) := by
  intro b hb
  rw [read_write, read_write, h b hb]

theorem get (h : Agree m m') (r : Register) (hr : ¬ Scratch r.address) : m.get r = m'.get r :=
  h r.address hr

theorem sp (h : Agree m m') : m.get .sp = m'.get .sp :=
  h.get .sp (by decide)

theorem set (h : Agree m m') (r : Register) (v : Word) : Agree (m.set r v) (m'.set r v) :=
  h.write r.address v

theorem set_scratch (m : Memory) (r : Register) (hr : Scratch r.address) (v : Word) :
    Agree (m.set r v) m := by
  intro a ha
  exact read_set_of_ne m v (by rintro rfl; exact ha hr)

theorem push (h : Agree m m') (v : Word) : Agree (m.push v) (m'.push v) := by
  have hwrite := h.write (m.get .sp) v
  unfold Memory.push Memory.raise
  rw [← h.sp, ← hwrite.sp]
  exact hwrite.set .sp _

theorem pushRegister (h : Agree m m') (r : Register) (hr : ¬ Scratch r.address) :
    Agree (m.pushRegister r) (m'.pushRegister r) := by
  unfold Memory.pushRegister
  rw [h.get r hr]
  exact h.push _

theorem pushZeros (h : Agree m m') (k : Nat) : Agree (m.pushZeros k) (m'.pushZeros k) := by
  induction k generalizing m m' with
  | zero => exact h
  | succ k ih => exact ih (h.push 0)

theorem drop (h : Agree m m') : Agree m.drop m'.drop := by
  unfold Memory.drop
  rw [h.sp]
  exact h.set .sp _

theorem mapTop (h : Agree m m') (f : Word → Word) (htop : ¬ Scratch (m.get .sp - 1)) :
    Agree (m.mapTop f) (m'.mapTop f) := by
  unfold Memory.mapTop
  rw [← h.sp, ← h _ htop]
  exact h.write _ _

/-- What `drop` takes off the stack is not in a scratch register, nor does `drop` change it. -/
theorem top_drop (h : Agree m m') (htop : ¬ Scratch (m.get .sp - 1)) :
    m.drop.top = m'.drop.top := by
  have hsp : m.drop.get .sp = m.get .sp - 1 := get_set_self ..
  unfold Memory.top
  rw [← h.drop.sp]
  exact h.drop _ (hsp ▸ htop)

theorem mapTops (h : Agree m m') (f : Word → Word → Word) (htop : ¬ Scratch (m.get .sp - 1))
    (hnext : ¬ Scratch (m.get .sp - 2)) : Agree (m.mapTops f) (m'.mapTops f) := by
  have hsp : m.drop.get .sp - 1 = m.get .sp - 2 := by
    rw [show m.drop.get .sp = m.get .sp - 1 from get_set_self .., BitVec.sub_sub]
    rfl
  unfold Memory.mapTops
  rw [← h.top_drop htop]
  exact h.drop.mapTop _ (hsp ▸ hnext)

theorem popInto (h : Agree m m') (a : Word) (htop : ¬ Scratch (m.get .sp - 1)) :
    Agree (m.popInto a) (m'.popInto a) := by
  unfold Memory.popInto
  rw [← h.top_drop htop]
  exact h.drop.write a _

theorem enter (h : Agree m m') (back arguments : Word) :
    Agree (m.enter back arguments) (m'.enter back arguments) := by
  have hsaved : Agree (m.saveCaller back) (m'.saveCaller back) :=
    ((((h.push back).pushRegister .lcl (by decide)).pushRegister .arg (by decide)).pushRegister
      .this (by decide)).pushRegister .that (by decide)
  unfold Memory.enter Memory.openFrame
  rw [hsaved.sp]
  exact (hsaved.set .arg _).set .lcl _

theorem restore (h : Agree m m') (r : Register) {a : Word} (ha : ¬ Scratch a) :
    Agree (m.restore r a) (m'.restore r a) := by
  unfold Memory.restore
  rw [h a ha]
  exact h.set r _

theorem restoreCaller (h : Agree m m') {frame : Word}
    (hframe : ∀ i ∈ [1, 2, 3, 4], ¬ Scratch (frame - i)) :
    Agree (m.restoreCaller frame) (m'.restoreCaller frame) :=
  (((h.restore .that (hframe 1 (by simp))).restore .this (hframe 2 (by simp))).restore .arg
    (hframe 3 (by simp))).restore .lcl (hframe 4 (by simp))

theorem cutStack (h : Agree m m') : Agree m.cutStack m'.cutStack := by
  unfold Memory.cutStack
  rw [h.get .arg (by decide)]
  exact h.set .sp _

theorem leave (h : Agree m m') (htop : ¬ Scratch (m.get .sp - 1))
    (hframe : ∀ i ∈ [1, 2, 3, 4], ¬ Scratch (m.get .lcl - i)) : Agree m.leave m'.leave := by
  unfold Memory.leave
  rw [← h.get .lcl (by decide), ← h.get .arg (by decide)]
  exact (h.popInto _ htop).cutStack.restoreCaller hframe

end Agree

end Machine.Memory

end HackVM
