import HackVM.Machine.Cpu
import HackVM.Proofs.Machine.Code

namespace HackVM

open Asm Machine

/-!
# Stretches of a run

A block of code is left either at its end or by a jump, and until then the counter stays strictly
inside it.  `Cpu.Leads` says so of a stretch of a run; it is what the proofs about blocks put
together.

* `Cpu.Leads rom lo hi c c'` — the machine goes from `c` to `c'`, with the counter strictly between
  `lo` and `hi` on the way, `Leads.trans` — stretches compose, and `Leads.eq_of_outside` — at the
  end of the program they are over;
* `Program.follow` — what lines without jumps do, as a function on states;
* `leads_follow` — the machine does just that, and `leads_jump` — what a jump does.
-/

/-- Whether a line has no jump. -/
def Asm.Line.isStraight : Line → Bool
  | .compute _ _ (some _) => false
  | _ => true

namespace Machine

/-- The machine goes, in one step or more, from one state to another; on the way the counter stays
    strictly between two addresses. -/
def Cpu.Leads (rom : Array Instruction) (lo hi : Nat) (c c' : Cpu) : Prop :=
  ∃ k, 0 < k ∧ c.run rom k = (c', none) ∧
    ∀ j, 0 < j → j < k → lo < (c.run rom j).1.pc ∧ (c.run rom j).1.pc < hi

namespace Cpu

variable {rom : Array Instruction} {lo hi : Nat} {c c₁ c' : Cpu}

theorem run_add_of_ok {first : Nat} (h : c.run rom first = (c₁, none)) (second : Nat) :
    c.run rom (first + second) = c₁.run rom second := by
  rw [run_add, h]

theorem run_one {instruction : Instruction} (hrom : rom[c.pc]? = some instruction)
    (h : c.execute instruction = (c', none)) : c.run rom 1 = (c', none) := by
  simp [run, hrom, h]

/-- Outside of its program the machine stands still. -/
theorem run_of_outside (h : rom[c.pc]? = none) (steps : Nat) : c.run rom steps = (c, none) := by
  cases steps with
  | zero => rfl
  | succ steps => simp [run, h]

theorem Leads.trans (h : c.Leads rom lo hi c₁) (hlo : lo < c₁.pc) (hhi : c₁.pc < hi)
    (h' : c₁.Leads rom lo hi c') : c.Leads rom lo hi c' := by
  obtain ⟨k, hk, hrun, hinside⟩ := h
  obtain ⟨k', hk', hrun', hinside'⟩ := h'
  refine ⟨k + k', by omega, by rw [run_add_of_ok hrun, hrun'], ?_⟩
  intro j hj hjk
  -- A moment on the way is in the first stretch, between the two, or in the second.
  rcases Nat.lt_trichotomy j k with hlt | rfl | hgt
  · exact hinside j hj hlt
  · rw [hrun]
    exact ⟨hlo, hhi⟩
  · obtain ⟨i, rfl⟩ : ∃ i, j = k + i := ⟨j - k, by omega⟩
    rw [run_add_of_ok hrun]
    exact hinside' i (by omega) (by omega)

theorem Leads.mono {lo' hi' : Nat} (h : c.Leads rom lo hi c') (hlo : lo' ≤ lo) (hhi : hi ≤ hi') :
    c.Leads rom lo' hi' c' := by
  obtain ⟨k, hk, hrun, hinside⟩ := h
  refine ⟨k, hk, hrun, fun j hj hjk => ?_⟩
  obtain ⟨h₁, h₂⟩ := hinside j hj hjk
  omega

/-- A stretch from the start of a program to its end is all that the machine does. -/
theorem Leads.eq_of_outside {steps : Nat} {c'' : Cpu} (h : c.Leads rom lo hi c')
    (houtside : rom[c'.pc]? = none) (hstart : c.pc < hi) (hrun : c.run rom steps = (c'', none))
    (hend : c''.pc = hi) : c'' = c' := by
  obtain ⟨k, -, hk, hinside⟩ := h
  rcases Nat.lt_or_ge steps k with hlt | hge
  · -- On the way the counter is before the end.
    have hbefore : c''.pc < hi := by
      rcases Nat.eq_zero_or_pos steps with rfl | hpos
      · obtain rfl : c = c'' := congrArg Prod.fst hrun
        exact hstart
      · have hmoment := (hinside steps hpos hlt).2
        rwa [hrun] at hmoment
    omega
  · obtain ⟨rest, rfl⟩ : ∃ rest, steps = k + rest := ⟨steps - k, by omega⟩
    rw [run_add_of_ok hk, run_of_outside houtside] at hrun
    exact (congrArg Prod.fst hrun).symm

/-- A single step has nothing on its way. -/
theorem leads_of_execute {instruction : Instruction} (hrom : rom[c.pc]? = some instruction)
    (h : c.execute instruction = (c', none)) : c.Leads rom lo hi c' :=
  ⟨1, by omega, run_one hrom h, fun j hj hj' => by omega⟩

end Cpu

/-! ### Lines without jumps -/

/-- The state after a line whose jump, if it has one, is not made. -/
def Program.advance (p : Program) (c : Cpu) : Line → Cpu
  | .comment _ | .label _ => c
  | .compute dest comp _ =>
    { c.store dest (computationValue c.a c.d c.m comp) with pc := c.pc + 1 }
  | line => { c with a := p.operand line, pc := c.pc + 1 }

/-- The state after lines whose jumps are not made. -/
def Program.follow (p : Program) (lines : List Line) (c : Cpu) : Cpu :=
  lines.foldl p.advance c

theorem Program.follow_append (p : Program) (first second : List Line) (c : Cpu) :
    p.follow (first ++ second) c = p.follow second (p.follow first c) :=
  List.foldl_append

variable {p : Program} {lines : List Line} {c : Cpu}

theorem advance_pc (p : Program) (c : Cpu) (line : Line) :
    (p.advance c line).pc = c.pc + line.size := by
  cases line <;> rfl

theorem follow_pc (p : Program) (lines : List Line) (c : Cpu) :
    (p.follow lines c).pc = c.pc + instructionCount lines := by
  induction lines generalizing c with
  | nil => rfl
  | cons line lines ih =>
    rw [instructionCount_cons, ← Nat.add_assoc, ← advance_pc p c line]
    exact ih (p.advance c line)

/-- A line without a jump takes its one instruction, or none, and advances the state. -/
theorem run_advance {line : Line} (hholds : p.Holds c.pc (line :: lines))
    (hstraight : line.isStraight) :
    c.run p.rom line.size = (p.advance c line, none) ∧
      p.Holds (p.advance c line).pc lines := by
  rw [advance_pc]
  cases line with
  | comment text => exact ⟨rfl, hholds⟩
  | label s => exact ⟨rfl, hholds.2⟩
  | number n | symbol s => exact ⟨Cpu.run_one hholds.1 rfl, hholds.2⟩
  | compute dest comp jump =>
    cases jump with
    | none => exact ⟨Cpu.run_one hholds.1 rfl, hholds.2⟩
    | some condition => exact absurd hstraight (by simp [Line.isStraight])

/-- Lines without jumps are gone through in order, one instruction a step. -/
theorem run_follow (hholds : p.Holds c.pc lines) (hstraight : lines.all Line.isStraight) :
    c.run p.rom (instructionCount lines) = (p.follow lines c, none) ∧
      ∀ j ≤ instructionCount lines, (c.run p.rom j).1.pc = c.pc + j := by
  induction lines generalizing c with
  | nil =>
    refine ⟨rfl, fun j hj => ?_⟩
    obtain rfl : j = 0 := by simpa using hj
    rfl
  | cons line lines ih =>
    rw [List.all_cons, Bool.and_eq_true] at hstraight
    obtain ⟨hrun, hrest⟩ := run_advance hholds hstraight.1
    obtain ⟨hfollow, hpc⟩ := ih hrest hstraight.2
    rw [instructionCount_cons]
    refine ⟨by rw [Cpu.run_add_of_ok hrun, hfollow]; rfl, fun j hj => ?_⟩
    -- A line takes at most one step, so no moment lies inside it.
    have hsize : line.size ≤ 1 := by cases line <;> simp [Line.size]
    rcases Nat.eq_zero_or_pos j with rfl | hpos
    · rfl
    · obtain ⟨i, rfl⟩ : ∃ i, j = line.size + i := ⟨j - line.size, by omega⟩
      rw [Cpu.run_add_of_ok hrun, hpc i (by omega), advance_pc]
      omega

/-- **The machine follows lines without jumps**, and the counter stays inside them. -/
theorem leads_follow (hholds : p.Holds c.pc lines) (hstraight : lines.all Line.isStraight)
    (hpos : 0 < instructionCount lines) :
    c.Leads p.rom c.pc (c.pc + instructionCount lines) (p.follow lines c) := by
  obtain ⟨hrun, hpc⟩ := run_follow hholds hstraight
  refine ⟨_, hpos, hrun, fun j hj hlt => ?_⟩
  rw [hpc j hlt.le]
  omega

/-- A jump goes to where `A` points if its condition holds, and to the next instruction if not. -/
theorem leads_jump {comp : Computation} {condition : Jump} {lo hi : Nat}
    (hholds : p.Holds c.pc (.jump comp condition :: lines)) :
    c.Leads p.rom lo hi
      { c with pc := if jumpHolds (computationValue c.a c.d c.m comp) condition then c.a.toNat
                     else c.pc + 1 } :=
  Cpu.leads_of_execute hholds.1 rfl

end Machine

end HackVM
