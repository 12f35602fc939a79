namespace HackVM.Machine

/-!
# Words and memory

The machine works on words of 16 bits, and its memory has a word for each of the 65536 addresses.
Few of them are ever written, so a memory is kept as a binary tree that branches on the bits of the
address, the highest first, and has leaves only where something was written. All other words are
zero.

* `Memory.read` and `Memory.write` use one word, and `read_write` says what they have to do with
  each other;
* `Memory.changes` lists the words in which one memory differs from an earlier one.
-/

/-- The words of the machine. -/
abbrev Word := BitVec 16

/-- A memory, or the part of it below a branch. -/
inductive Memory where
  /-- Nothing was written here. -/
  | blank
  /-- One word. -/
  | cell (value : Word)
  /-- The addresses where the next bit is 0, and those where it is 1. -/
  | fork (low high : Memory)
  deriving Repr

namespace Memory

/-- The part where the next bit is 0. -/
def low : Memory → Memory
  | fork low _ => low
  | _ => blank

/-- The part where the next bit is 1. -/
def high : Memory → Memory
  | fork _ high => high
  | _ => blank

/-- The word at an address of which a number of low bits are still to be looked at. -/
def readBits : Nat → Memory → Word → Word
  | 0, cell value, _ => value
  | n + 1, fork low high, a => if a.getLsbD n then readBits n high a else readBits n low a
  | _, _, _ => 0

/-- Writes the word at an address of which a number of low bits are still to be looked at. -/
def writeBits : Nat → Memory → Word → Word → Memory
  | 0, _, _, value => cell value
  | n + 1, m, a, value =>
    if a.getLsbD n then fork m.low (writeBits n m.high a value)
    else fork (writeBits n m.low a value) m.high

/-- The word at an address. -/
def read (m : Memory) (a : Word) : Word :=
  readBits 16 m a

/-- The memory with the word at an address replaced. -/
def write (m : Memory) (a value : Word) : Memory :=
  writeBits 16 m a value

/-! ### Reading what was written -/

@[simp] theorem readBits_blank (n : Nat) (a : Word) : readBits n blank a = 0 := by
  cases n <;> rfl

@[simp] theorem read_blank (a : Word) : blank.read a = 0 :=
  readBits_blank 16 a

/-- Reading below a branch looks at the part that the next bit selects. -/
theorem readBits_succ (n : Nat) (m : Memory) (a : Word) :
    readBits (n + 1) m a = if a.getLsbD n then readBits n m.high a else readBits n m.low a := by
  cases m <;> simp [readBits, low, high]

/-- Two addresses agree on their lowest bits. -/
def SameBits (n : Nat) (a b : Word) : Prop :=
  ∀ i < n, a.getLsbD i = b.getLsbD i

theorem sameBits_succ {n : Nat} {a b : Word} :
    SameBits (n + 1) a b ↔ a.getLsbD n = b.getLsbD n ∧ SameBits n a b := by
  constructor
  · intro h
    exact ⟨h n (by omega), fun i hi => h i (by omega)⟩
  · intro ⟨hn, h⟩ i hi
    by_cases hin : i = n
    · exact hin ▸ hn
    · exact h i (by omega)

theorem sameBits_all {a b : Word} : SameBits 16 a b ↔ a = b := by
  constructor
  · intro h
    exact BitVec.eq_of_getLsbD_eq fun i hi => h i hi
  · intro h
    subst h
    intro i _
    rfl

theorem readBits_writeBits_same {n : Nat} (m : Memory) {a b : Word} (value : Word)
    (h : SameBits n a b) : readBits n (writeBits n m a value) b = value := by
  induction n generalizing m with
  | zero => rfl
  | succ n ih =>
    obtain ⟨hn, h⟩ := sameBits_succ.1 h
    by_cases ha : a.getLsbD n <;>
      simp [readBits_succ, writeBits, ← hn, ha, low, high, ih _ h]

theorem readBits_writeBits_other {n : Nat} (m : Memory) {a b : Word} (value : Word)
    (h : ¬ SameBits n a b) : readBits n (writeBits n m a value) b = readBits n m b := by
  induction n generalizing m with
  | zero => exact absurd (fun i hi => absurd hi (Nat.not_lt_zero i)) h
  | succ n ih =>
    rw [readBits_succ, readBits_succ]
    by_cases hn : a.getLsbD n = b.getLsbD n
    · have h' : ¬ SameBits n a b := fun hs => h (sameBits_succ.2 ⟨hn, hs⟩)
      by_cases ha : a.getLsbD n <;> simp [writeBits, ← hn, ha, low, high, ih _ h']
    · by_cases ha : a.getLsbD n <;> by_cases hb : b.getLsbD n <;>
        simp_all [writeBits, low, high]

/-- Reading after a write gives the written word at its address and the old word elsewhere. -/
theorem read_write (m : Memory) (a b value : Word) :
    (m.write a value).read b = if a = b then value else m.read b := by
  by_cases h : a = b
  · rw [if_pos h]
    exact readBits_writeBits_same m value (sameBits_all.2 h)
  · rw [if_neg h]
    exact readBits_writeBits_other m value fun hs => h (sameBits_all.1 hs)

@[simp] theorem read_write_self (m : Memory) (a value : Word) :
    (m.write a value).read a = value := by
  simp [read_write]

/-! ### Differences -/

/-- The words that were written below a branch, given the bits of the address above it. -/
def cellsFrom : Memory → Nat → List (Nat × Word)
  | blank, _ => []
  | cell value, a => [(a, value)]
  | fork low high, a => low.cellsFrom (2 * a) ++ high.cellsFrom (2 * a + 1)

/-- The words that were written, by address in increasing order. -/
def cells (m : Memory) : List (Nat × Word) :=
  m.cellsFrom 0

/-- The words in which a memory differs from an earlier one that it was written from, by address
    in increasing order. -/
def changes (before after : Memory) : List (Nat × Word) :=
  after.cells.filter fun (a, value) => before.read (BitVec.ofNat 16 a) ≠ value

end Memory

end HackVM.Machine
