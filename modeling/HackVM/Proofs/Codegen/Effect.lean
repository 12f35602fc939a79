import HackVM.Codegen.Block
import HackVM.Proofs.Machine.Path

namespace HackVM.Codegen

open Asm Machine

/-!
# What the pieces of code do

Every piece of code without jumps is a function on the state of the machine.  This file gives these
functions in terms of the stack in memory: the small pieces with all registers, because others are
built on them, and the code of commands with what it leaves in memory.

* `follow_pushD`, `follow_popD`, `follow_pointAtTop`, `follow_popToD` — the stack;
* `ram_pushIndexed`, `ram_popIndexed`, `ram_pushSymbol`, `ram_pushConstant` — the segments;
* `ram_unaryCode`, `ram_binaryCode` — the operators;
* `ram_functionCode`, `ram_frameCode`, `ram_unwindCode` — functions.
-/

/-- The program loads the addresses of registers. -/
def NamesRegisters (p : Program) : Prop :=
  ∀ r, p.operand (.load r) = r.address

variable {p : Program} (hreg : NamesRegisters p) (c : Cpu)

/-! ### Single lines -/

theorem follow_nil : p.follow [] c = c := rfl

theorem follow_cons (line : Line) (lines : List Line) :
    p.follow (line :: lines) c = p.follow lines (p.advance c line) := rfl

include hreg in
theorem advance_load (r : Register) :
    p.advance c (.load r) = ⟨c.ram, r.address, c.d, c.pc + 1⟩ := by
  rw [← hreg r]
  rfl

theorem advance_number (n : Nat) :
    p.advance c (.number n) = ⟨c.ram, p.operand (.number n), c.d, c.pc + 1⟩ := rfl

theorem advance_symbol (s : Symbol) :
    p.advance c (.symbol s) = ⟨c.ram, p.operand (.symbol s), c.d, c.pc + 1⟩ := rfl

theorem advance_set_a (comp : Computation) :
    p.advance c (.set .a comp) =
      ⟨c.ram, computationValue c.a c.d (c.ram.read c.a) comp, c.d, c.pc + 1⟩ := rfl

theorem advance_set_d (comp : Computation) :
    p.advance c (.set .d comp) =
      ⟨c.ram, c.a, computationValue c.a c.d (c.ram.read c.a) comp, c.pc + 1⟩ := rfl

theorem advance_set_m (comp : Computation) :
    p.advance c (.set .m comp) =
      ⟨c.ram.write c.a (computationValue c.a c.d (c.ram.read c.a) comp), c.a, c.d, c.pc + 1⟩ := by
  simp [Line.set, Program.advance, Cpu.store, Destination.m, Cpu.m]

/-! ### The stack -/

include hreg

theorem follow_pushD : p.follow pushD c = ⟨c.ram.push c.d, 0, c.d, c.pc + 5⟩ := by
  simp only [pushD, follow_cons, follow_nil, advance_load hreg, advance_set_a, advance_set_m]
  rfl

theorem follow_popD :
    p.follow popD c = ⟨c.ram.drop, c.ram.drop.get .sp, c.ram.drop.top, c.pc + 4⟩ := by
  simp only [popD, follow_cons, follow_nil, advance_load hreg, advance_set_a, advance_set_m,
    advance_set_d]
  rfl

theorem follow_pointAtTop :
    p.follow pointAtTop c = ⟨c.ram, c.ram.get .sp - 1, c.d, c.pc + 2⟩ := by
  simp only [pointAtTop, follow_cons, follow_nil, advance_load hreg, advance_set_a]
  rfl

/-- The address survives the pop: the stack pointer is not `R13`. -/
theorem ram_popToD : (p.follow popToD c).ram = (c.ram.set .r13 c.d).popInto c.d := by
  have haddress : (c.ram.set .r13 c.d).drop.get .r13 = c.d := by
    rw [Memory.drop, Memory.get_set_of_ne _ _ (by decide), Memory.get_set_self]
  simp only [popToD, p.follow_append, follow_popD hreg, follow_cons, follow_nil,
    advance_load hreg, advance_set_a, advance_set_m, computationValue, operandValue,
    Memory.read_address, Memory.write_address, haddress, Memory.popInto]

/-! ### The segments -/

theorem ram_pushSymbol (s : Symbol) :
    (p.follow (pushSymbol s) c).ram = c.ram.push (c.ram.read (p.operand (.symbol s))) := by
  simp only [pushSymbol, p.follow_append, follow_cons, follow_nil, advance_symbol, advance_set_d,
    computationValue, operandValue, follow_pushD hreg]

omit hreg in
/-- A line, and an operand after it, that give the address at which a segment starts. -/
structure GivesBase (p : Program) (m : Memory) (base : Line) (address : Operand) (start : Word) :
    Prop where
  /-- The line loads an address. -/
  loads : ∀ c, p.advance c base = ⟨c.ram, p.operand base, c.d, c.pc + 1⟩
  /-- The operand is then the start of the segment. -/
  value : ∀ d, operandValue (p.operand base) d (m.read (p.operand base)) address = start

theorem givesBase_register (m : Memory) (r : Register) : GivesBase p m (.load r) .m (m.get r) where
  loads _ := rfl
  value _ := by rw [hreg r]; rfl

omit hreg in
theorem givesBase_number (m : Memory) {n : Nat} (h : n < 65536) :
    GivesBase p m (.number n) .a (BitVec.ofNat 16 n) where
  loads _ := rfl
  value _ := by rw [operand_number p h]; rfl

variable {base : Line} {address : Operand} {start : Word}

theorem ram_pushIndexed (h : GivesBase p c.ram base address start) (index : UInt16) :
    (p.follow (pushIndexed base address index) c).ram =
      c.ram.push (c.ram.read (start + BitVec.ofNat 16 index.toNat)) := by
  simp only [pushIndexed, p.follow_append, follow_cons, follow_nil, advance_number, h.loads,
    advance_set_d, advance_set_a, computationValue, follow_pushD hreg,
    operand_number p index.toNat_lt, h.value]
  simp only [operandValue]

theorem ram_popIndexed (h : GivesBase p c.ram base address start) (index : UInt16) :
    (p.follow (popIndexed base address index) c).ram =
      (c.ram.set .r13 (start + BitVec.ofNat 16 index.toNat)).popInto
        (start + BitVec.ofNat 16 index.toNat) := by
  simp only [popIndexed, p.follow_append, follow_cons, follow_nil, advance_number, h.loads,
    advance_set_d, computationValue, ram_popToD hreg, operand_number p index.toNat_lt, h.value]
  simp only [operandValue]

theorem ram_popPointer (r : Register) :
    (p.follow ([.load r, .set .d (.value .a)] ++ popToD) c).ram =
      (c.ram.set .r13 r.address).popInto r.address := by
  simp only [p.follow_append, follow_cons, follow_nil, advance_load hreg, advance_set_d,
    computationValue, operandValue, ram_popToD hreg]

theorem ram_popSymbol (s : Symbol) :
    (p.follow (popD ++ [.symbol s, .set .m (.value .d)]) c).ram =
      c.ram.popInto (p.operand (.symbol s)) := by
  simp only [p.follow_append, follow_cons, follow_nil, follow_popD hreg, advance_symbol,
    advance_set_m, computationValue, operandValue, Memory.popInto]

theorem ram_pushConstant {n : Int} (h : n.natAbs < 65536) :
    (p.follow (pushConstant n) c).ram = c.ram.push (BitVec.ofInt 16 n) := by
  -- The code loads the absolute value and negates it where the number is negative.
  have hvalue : ∀ d m, computationValue (BitVec.ofNat 16 n.natAbs) d m
      (if n < 0 then .negate .a else .value .a) = BitVec.ofInt 16 n := by
    intro d m
    split
    · obtain ⟨k, rfl⟩ : ∃ k : Nat, n = -(k : Int) := ⟨n.natAbs, by omega⟩
      simp only [computationValue, operandValue, Int.natAbs_neg, Int.natAbs_natCast,
        BitVec.ofInt_neg, BitVec.ofInt_natCast]
    · obtain ⟨k, rfl⟩ : ∃ k : Nat, n = (k : Int) := ⟨n.natAbs, by omega⟩
      simp only [computationValue, operandValue, Int.natAbs_natCast, BitVec.ofInt_natCast]
  simp only [pushConstant, p.follow_append, follow_cons, follow_nil, advance_number,
    advance_set_d, operand_number p h, hvalue, follow_pushD hreg]

/-! ### The operators -/

theorem ram_unaryCode {comp : Computation} {f : Word → Word}
    (hcomp : ∀ a d m, computationValue a d m comp = f m) :
    (p.follow (unaryCode comp) c).ram = c.ram.mapTop f := by
  simp only [unaryCode, p.follow_append, follow_cons, follow_nil, follow_pointAtTop hreg,
    advance_set_m, hcomp, Memory.mapTop]

theorem ram_binaryCode {comp : Computation} {f : Word → Word → Word}
    (hcomp : ∀ a d m, computationValue a d m comp = f m d) :
    (p.follow (binaryCode comp) c).ram = c.ram.mapTops f := by
  simp only [binaryCode, p.follow_append, follow_cons, follow_nil, follow_popD hreg,
    follow_pointAtTop hreg, advance_set_m, hcomp, Memory.mapTops, Memory.mapTop]

/-! ### Functions -/

theorem ram_pushZero : (p.follow pushZero c).ram = c.ram.push 0 := by
  simp only [pushZero, follow_cons, follow_nil, advance_load hreg, advance_set_a, advance_set_m,
    computationValue, operandValue, Memory.read_address, Memory.write_address, Memory.push,
    Memory.raise]

theorem ram_functionCode (name : String) (locals : UInt16) :
    (p.follow (functionCode name locals) c).ram = c.ram.pushZeros locals.toNat := by
  have hzeros : ∀ k c,
      (p.follow (List.replicate k pushZero).flatten c).ram = c.ram.pushZeros k := by
    intro k
    induction k with
    | zero => exact fun c => rfl
    | succ k ih =>
      intro c
      rw [List.replicate_succ, List.flatten_cons, p.follow_append, ih, ram_pushZero hreg]
      rfl
  exact hzeros locals.toNat c

/-- The code of a call up to the jump to the function. -/
def frameCode (number arguments : Nat) : List Line :=
  [Line.symbol (.returnPoint number), Line.set .d (.value .a)] ++ pushD ++
    savedRegisters.flatMap (fun r => pushSymbol (.register r)) ++
    [Line.load .sp, Line.set .d (.value .m), Line.number (arguments + frameSize),
      Line.set .d (.subtract .d .a), Line.load .arg, Line.set .m (.value .d),
      Line.load .sp, Line.set .d (.value .m), Line.load .lcl, Line.set .m (.value .d)]

theorem ram_pushRegister (r : Register) :
    (p.follow (pushSymbol (.register r)) c).ram = c.ram.pushRegister r := by
  rw [ram_pushSymbol hreg, show Line.symbol (.register r) = .load r from rfl, hreg r]
  rfl

theorem ram_frameCode (number : Nat) {arguments : Nat} (h : arguments + frameSize < 65536) :
    (p.follow (frameCode number arguments) c).ram =
      c.ram.enter (p.operand (.symbol (.returnPoint number))) (BitVec.ofNat 16 arguments) := by
  have hsaved : (p.follow ([.symbol (.returnPoint number), .set .d (.value .a)] ++ pushD ++
      savedRegisters.flatMap fun r => pushSymbol (.register r)) c).ram =
      c.ram.saveCaller (p.operand (.symbol (.returnPoint number))) := by
    simp only [savedRegisters, List.flatMap_cons, List.flatMap_nil, List.append_nil,
      p.follow_append, ram_pushRegister hreg, follow_cons, follow_nil, advance_symbol,
      advance_set_d, computationValue, operandValue, follow_pushD hreg, Memory.saveCaller]
  -- `LCL` is set from a stack pointer that is read again after `ARG` is set.
  have hsp : ∀ (m : Memory) v, (m.set .arg v).get .sp = m.get .sp :=
    fun m v => m.get_set_of_ne v (by decide)
  have hbelow : ∀ sp : Word, sp - BitVec.ofNat 16 (arguments + frameSize) =
      sp - BitVec.ofNat 16 arguments - 5 := by
    intro sp
    rw [BitVec.sub_sub, BitVec.ofNat_add]
    rfl
  unfold frameCode
  rw [p.follow_append]
  simp only [follow_cons, follow_nil, advance_load hreg, advance_number, advance_set_d,
    advance_set_m, operand_number p h, computationValue, operandValue, Memory.read_address,
    Memory.write_address, hsaved, hsp, hbelow, Memory.enter, Memory.openFrame]

/-! ### Returns -/

theorem ram_restoreCode (r : Register) {offset : Nat} (h : offset < 65536) :
    (p.follow (restoreCode r offset) c).ram =
      c.ram.restore r (c.ram.get .r14 - BitVec.ofNat 16 offset) := by
  simp only [restoreCode, follow_cons, follow_nil, advance_load hreg, advance_number,
    advance_set_d, advance_set_a, advance_set_m, operand_number p h, computationValue,
    operandValue, Memory.read_address, Memory.write_address, Memory.restore]

omit hreg in
/-- The code of a return up to the jump to the caller. -/
def unwindCode : List Line :=
  [Line.load .lcl, Line.set .d (.value .m), Line.load .r14, Line.set .m (.value .d)] ++
    restoreCode .r15 frameSize ++
    popIndexed (.load .arg) .m 0 ++
    [Line.load .arg, Line.set .d (.value .m), Line.load .sp, Line.set .m (.add .d .one)] ++
    restoreCode .that 1 ++ restoreCode .this 2 ++ restoreCode .arg 3 ++ restoreCode .lcl 4

omit hreg in
theorem returnCode_eq :
    returnCode = unwindCode ++ [.load .r15, .set .a (.value .m), .jump (.value .zero) .always] := by
  rw [returnCode, unwindCode]

omit hreg in
/-- The memory with the frame and the return address in the scratch registers. -/
def holdFrame (m : Memory) : Memory :=
  (m.set .r14 (m.get .lcl)).restore .r15 (m.get .lcl - 5)

omit hreg in
/-- The memory after the code of a return: that of a return, up to the scratch registers, in which
    the code keeps what it needs. -/
def unwound (m : Memory) : Memory :=
  (((holdFrame m).set .r13 (m.get .arg)).popInto (m.get .arg)).cutStack.restoreCaller (m.get .lcl)

omit hreg in
/-- The frame stays in its register while the result is stored, unless it is stored there. -/
theorem get_r14_popInto {m : Memory} (h : m.get .arg ≠ 14) :
    (((holdFrame m).set .r13 (m.get .arg)).popInto (m.get .arg)).get .r14 = m.get .lcl := by
  rw [Memory.popInto, Memory.get_write_of_ne _ _ h, Memory.drop,
    Memory.get_set_of_ne _ _ (by decide), Memory.get_set_of_ne _ _ (by decide), holdFrame,
    Memory.restore, Memory.get_set_of_ne _ _ (by decide), Memory.get_set_self]

theorem ram_unwindCode (h : c.ram.get .arg ≠ 14) :
    (p.follow unwindCode c).ram = unwound c.ram := by
  have hpop : (p.follow ([.load .lcl, .set .d (.value .m), .load .r14, .set .m (.value .d)] ++
      restoreCode .r15 frameSize ++ popIndexed (.load .arg) .m 0) c).ram =
      ((holdFrame c.ram).set .r13 (c.ram.get .arg)).popInto (c.ram.get .arg) := by
    have harg : (holdFrame c.ram).get .arg = c.ram.get .arg := by
      rw [holdFrame, Memory.restore, Memory.get_set_of_ne _ _ (by decide),
        Memory.get_set_of_ne _ _ (by decide)]
    have hheld : (p.follow ([.load .lcl, .set .d (.value .m), .load .r14, .set .m (.value .d)] ++
        restoreCode .r15 frameSize) c).ram = holdFrame c.ram := by
      rw [p.follow_append, ram_restoreCode hreg _ _ (by decide)]
      simp only [follow_cons, follow_nil, advance_load hreg, advance_set_d, advance_set_m,
        computationValue, operandValue, Memory.read_address, Memory.write_address,
        Memory.get_set_self]
      rfl
    rw [p.follow_append, ram_popIndexed hreg _ (givesBase_register hreg _ .arg), hheld, harg]
    simp
  have hcut : ∀ c : Cpu, (p.follow [.load .arg, .set .d (.value .m), .load .sp,
      .set .m (.add .d .one)] c).ram = c.ram.cutStack := by
    intro c
    simp only [follow_cons, follow_nil, advance_load hreg, advance_set_d, advance_set_m,
      computationValue, operandValue, Memory.read_address, Memory.write_address, Memory.cutStack]
  -- Each restore looks for the frame in `R14`, so none before it may change that.
  have hkeep : ∀ (m : Memory) (r : Register) v, r ≠ .r14 → (m.set r v).get .r14 = m.get .r14 :=
    fun m r v hr => m.get_set_of_ne v hr
  have hr14 := get_r14_popInto h
  unfold unwindCode
  rw [p.follow_append, p.follow_append, p.follow_append, p.follow_append, p.follow_append,
    ram_restoreCode hreg _ _ (by decide), ram_restoreCode hreg _ _ (by decide),
    ram_restoreCode hreg _ _ (by decide), ram_restoreCode hreg _ _ (by decide), hcut, hpop]
  simp only [Memory.restore, Memory.cutStack, hkeep _ _ _ (by decide : Register.that ≠ .r14),
    hkeep _ _ _ (by decide : Register.this ≠ .r14), hkeep _ _ _ (by decide : Register.arg ≠ .r14),
    hkeep _ _ _ (by decide : Register.sp ≠ .r14), hr14]
  rfl

omit hreg in
/-- Unwinding is returning, as long as nothing that the return reads is kept in the scratch
    registers. -/
theorem unwound_agree {m : Memory} (htop : ¬ Memory.Scratch (m.get .sp - 1))
    (hframe : ∀ i ∈ [1, 2, 3, 4], ¬ Memory.Scratch (m.get .lcl - i)) :
    (unwound m).Agree m.leave := by
  have hheld : (holdFrame m).Agree m := by
    unfold holdFrame Memory.restore
    exact (Memory.Agree.set_scratch _ .r15 (by decide) _).trans
      (Memory.Agree.set_scratch _ .r14 (by decide) _)
  have hset : ((holdFrame m).set .r13 (m.get .arg)).Agree m :=
    (Memory.Agree.set_scratch _ .r13 (by decide) _).trans hheld
  exact (hset.popInto _ (hset.sp ▸ htop)).cutStack.restoreCaller hframe

omit hreg in
/-- The return address stays in its register, unless the result is stored there. -/
theorem get_r15_unwound {m : Memory} (harg : m.get .arg ≠ 15) (hback : m.get .lcl - 5 ≠ 14) :
    (unwound m).get .r15 = m.returnAddress := by
  have hheld : (holdFrame m).get .r15 = m.returnAddress := by
    rw [holdFrame, Memory.restore, Memory.get_set_self,
      Memory.read_set_of_ne _ _ fun h => hback h.symm]
    rfl
  have hpop : (((holdFrame m).set .r13 (m.get .arg)).popInto (m.get .arg)).get .r15 =
      m.returnAddress := by
    rw [Memory.popInto, Memory.get_write_of_ne _ _ harg, Memory.drop,
      Memory.get_set_of_ne _ _ (by decide), Memory.get_set_of_ne _ _ (by decide), hheld]
  unfold unwound Memory.restoreCaller Memory.restore Memory.cutStack
  rw [Memory.get_set_of_ne _ _ (by decide), Memory.get_set_of_ne _ _ (by decide),
    Memory.get_set_of_ne _ _ (by decide), Memory.get_set_of_ne _ _ (by decide),
    Memory.get_set_of_ne _ _ (by decide), hpop]

end HackVM.Codegen
