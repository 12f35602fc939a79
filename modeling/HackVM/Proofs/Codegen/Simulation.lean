import HackVM.Proofs.Codegen.Layout

namespace HackVM.Codegen

open Asm Machine StackMachine

/-!
# Every block does what its command means

A loaded program, at the start of the code of a command, gets to the start of the code of the
command that comes next in the virtual machine, and leaves the memory that the command leaves there,
up to the scratch registers.

* `Compilation.machine` — the virtual machine of a compilation;
* `ram_pushCode`, `agree_popCode`, `arrives_operatorCode` — the commands without jumps;
* `Loads.operand_label`, `Loads.operand_function` — code loads the addresses of the commands that
  declare labels and functions;
* `Loads.simulates` — one step, for all commands;
* `Loads.leads_start` — what comes before the first step.
-/

/-- The virtual machine of a compilation, given the addresses of variables. In saved frames, a
    command is represented by the address of its code. -/
def Compilation.machine (k : Compilation) (static : String → Nat → Option Word) : StackMachine where
  commands := k.commands
  static := static
  place i := BitVec.ofNat 16 (k.address i)

/-- A program loads the addresses of the variables. -/
def LoadsStatics (p : Program) (static : String → Nat → Option Word) : Prop :=
  ∀ file (index : UInt16) v, static file index.toNat = some v →
    p.operand (.symbol (.static file index)) = v

/-! ### The segments -/

theorem toNat_indexOf {n : Int} (hlo : 0 ≤ n) (hhi : n < 65536) : (indexOf n).toNat = n.toNat := by
  have hsize : 0 ≤ n ∧ n < UInt16.size := ⟨hlo, hhi⟩
  rw [indexOf, if_pos hsize, UInt16.toNat_ofNat_of_lt' (by rw [UInt16.size]; omega)]

theorem ofNat_indexOf {n : Int} (hlo : 0 ≤ n) (hhi : n < 65536) :
    BitVec.ofNat 16 (indexOf n).toNat = BitVec.ofInt 16 n := by
  rw [toNat_indexOf hlo hhi, ← BitVec.ofInt_natCast, Int.toNat_of_nonneg hlo]

theorem address_pointerRegister {n : Int} (hlo : 0 ≤ n) (hhi : n ≤ 1) :
    (pointerRegister (indexOf n)).address = 3 + BitVec.ofInt 16 n := by
  obtain rfl | rfl : n = 0 ∨ n = 1 := by omega
  · rfl
  · rfl

variable {p : Program} {static : String → Nat → Option Word} {k : Compilation} {cpu : Cpu}

theorem ram_pushCode (hreg : NamesRegisters p) (hstatic : LoadsStatics p static) (file : String)
    {segment : Segment} {n : Int} (hlo : segment.least ≤ n) (hhi : n ≤ segment.greatest) {v : Word}
    (hv : (k.machine static).value? file cpu.ram segment n = some v) :
    (p.follow (pushCode file segment n) cpu).ram = cpu.ram.push v := by
  have hindexed : segment ≠ .constant → 0 ≤ n ∧ n < 65536 := by
    intro hs
    cases segment <;> simp only [Segment.least, Segment.greatest] at hlo hhi <;> first
      | exact absurd rfl hs
      | omega
  cases segment with
  | constant =>
    obtain rfl := Option.some.inj hv
    refine ram_pushConstant hreg cpu ?_
    simp only [Segment.least, Segment.greatest] at hlo hhi
    omega
  | locals | arguments | this | that =>
    obtain ⟨hlo, hhi⟩ := hindexed (by simp)
    obtain rfl := Option.some.inj hv
    rw [← ofNat_indexOf hlo hhi]
    exact ram_pushIndexed hreg cpu (givesBase_register hreg _ _) _
  | temp =>
    obtain ⟨hlo, hhi⟩ := hindexed (by simp)
    obtain rfl := Option.some.inj hv
    rw [← ofNat_indexOf hlo hhi]
    exact ram_pushIndexed hreg cpu (givesBase_number _ (by decide)) _
  | pointer =>
    obtain rfl := Option.some.inj hv
    rw [← address_pointerRegister hlo hhi]
    exact ram_pushRegister hreg cpu _
  | statics =>
    obtain ⟨hlo, hhi⟩ := hindexed (by simp)
    obtain ⟨a, ha, rfl⟩ := Option.map_eq_some_iff.1 hv
    have hload := hstatic file (indexOf n) a (by rw [toNat_indexOf hlo hhi]; exact ha)
    rw [← hload]
    exact ram_pushSymbol hreg cpu _

theorem address_pointerRegister_toNat {index : UInt16} (h : (index.toNat : Int) ≤ 1) :
    (pointerRegister index).address = 3 + BitVec.ofInt 16 index.toNat := by
  have hindex : indexOf index.toNat = index := by
    apply UInt16.toNat_inj.1
    rw [toNat_indexOf (by omega) (by have := index.toNat_lt; omega), Int.toNat_natCast]
  rw [← address_pointerRegister (by omega) h, hindex]

/-- A pop keeps the target in a scratch register while it takes the value off the stack. -/
theorem agree_popCode (hreg : NamesRegisters p) (hstatic : LoadsStatics p static) (file : String)
    {segment : Segment} {index : UInt16} (hhi : (index.toNat : Int) ≤ segment.greatest) {a : Word}
    (ha : (k.machine static).cell? file cpu.ram segment index.toNat = some a)
    (htop : ¬ Memory.Scratch (cpu.ram.get .sp - 1)) :
    (p.follow (popCode file segment index) cpu).ram.Agree (cpu.ram.popInto a) := by
  -- The word that is popped is not the one in which the target is kept.
  have hkeep : ∀ a, ((cpu.ram.set .r13 a).popInto a).Agree (cpu.ram.popInto a) := by
    intro a
    have hset := Memory.Agree.set_scratch cpu.ram .r13 (by decide) a
    exact hset.popInto a (hset.sp ▸ htop)
  have hindexed : ∀ {base : Line} {address : Operand} {start : Word},
      GivesBase p cpu.ram base address start → some (start + BitVec.ofInt 16 index.toNat) = some a →
      (p.follow (popIndexed base address index) cpu).ram.Agree (cpu.ram.popInto a) := by
    intro base address start hbase hstart
    rw [ram_popIndexed hreg cpu hbase, ← Option.some.inj hstart, BitVec.ofInt_natCast]
    exact hkeep _
  cases segment with
  | constant => exact absurd ha (by simp [cell?])
  | locals | arguments | this | that => exact hindexed (givesBase_register hreg _ _) ha
  | temp => exact hindexed (givesBase_number _ (by decide)) ha
  | pointer =>
    have hram := ram_popPointer hreg cpu (pointerRegister index)
    rw [address_pointerRegister_toNat hhi, Option.some.inj ha] at hram
    exact hram ▸ hkeep a
  | statics =>
    -- The address of a variable is loaded after the value is off the stack.
    have hram := ram_popSymbol hreg cpu (.static file index)
    rw [hstatic file index a ha] at hram
    exact hram ▸ Memory.Agree.refl _

/-! ### The operators -/

/-- Operators leave their block at its end, with their result on the stack. -/
theorem arrives_operatorCode (hreg : NamesRegisters p) {number : Nat} {operator : Operator}
    (hholds : p.Holds cpu.pc (operatorCode number operator))
    (hend : cpu.pc + instructionCount (operatorCode number operator) < 65536) :
    Arrives p (instructionCount (operatorCode number operator)) cpu
      (cpu.pc + instructionCount (operatorCode number operator)) (operate cpu.ram operator) := by
  -- Three kinds of code, each stated for any function that its computation amounts to.
  have hbinary : ∀ {comp : Computation} {f : Word → Word → Word},
      (∀ a d m, computationValue a d m comp = f m d) → p.Holds cpu.pc (binaryCode comp) →
      Arrives p (instructionCount (binaryCode comp)) cpu
        (cpu.pc + instructionCount (binaryCode comp)) (cpu.ram.mapTops f) := by
    intro comp f hcomp hholds
    rw [← ram_binaryCode hreg cpu hcomp]
    exact arrives_block hholds rfl (by simp [binaryCode, popD, pointAtTop])
  have hunary : ∀ {comp : Computation} {f : Word → Word},
      (∀ a d m, computationValue a d m comp = f m) → p.Holds cpu.pc (unaryCode comp) →
      Arrives p (instructionCount (unaryCode comp)) cpu
        (cpu.pc + instructionCount (unaryCode comp)) (cpu.ram.mapTop f) := by
    intro comp f hcomp hholds
    rw [← ram_unaryCode hreg cpu hcomp]
    exact arrives_block hholds rfl (by simp [unaryCode, pointAtTop])
  have hcompare : ∀ {condition : Jump} {f : Word → Word → Word},
      (∀ left right, (if jumpHolds (left - right) condition then -1 else 0) = f left right) →
      p.Holds cpu.pc (compareCode number condition) →
      cpu.pc + instructionCount (compareCode number condition) < 65536 →
      Arrives p (instructionCount (compareCode number condition)) cpu
        (cpu.pc + instructionCount (compareCode number condition)) (cpu.ram.mapTops f) := by
    intro condition f hf hholds hend
    obtain rfl : (fun left right => if jumpHolds (left - right) condition then -1 else 0) = f :=
      funext fun left => funext fun right => hf left right
    exact arrives_compareCode hreg hholds hend
  cases operator with
  | add | sub | and | or =>
    simp only [operatorCode, operate] at hholds ⊢
    exact hbinary (fun _ _ _ => rfl) hholds
  | neg | not =>
    simp only [operatorCode, operate] at hholds ⊢
    exact hunary (fun _ _ _ => rfl) hholds
  | eq =>
    -- A difference of words is zero just if the words are equal, also when it overflows.
    simp only [operatorCode, operate] at hholds hend ⊢
    refine hcompare (fun left right => ?_) hholds hend
    simp only [jumpHolds, toInt_eq_zero_iff, truth]
  | gt | lt =>
    simp only [operatorCode, operate] at hholds hend ⊢
    exact hcompare (fun left right => rfl) hholds hend

/-! ### One step -/

/-- The machine gets from the start of the code of a command to that of another. Either that code is
    empty, and the machine is at the next command already, or it takes the steps of the code and
    leaves a memory that agrees with a given one. -/
inductive Passes (k : Compilation) (p : Program) (i : Nat) (cpu : Cpu) : Nat → Memory → Prop
  | empty (hsize : k.address (i + 1) = k.address i) : Passes k p i cpu (i + 1) cpu.ram
  | block {j : Nat} {m m' : Memory} {a d : Word} (hsize : k.address i < k.address (i + 1))
      (hleads : cpu.Leads p.rom (k.address i) (k.address (i + 1)) ⟨m', a, d, k.address j⟩)
      (hagree : m'.Agree m) : Passes k p i cpu j m

/-- Whether the code of a command uses the scratch registers. -/
def usesScratch : Command → Bool
  | .pop .. | .ret => true
  | _ => false

/-- The commands whose code may be empty. -/
def MayBeEmpty : Command → Prop
  | .label _ | .function .. => True
  | _ => False

theorem instructionCount_body_pos (e : Emitter) (file : String) {c : Command}
    (h : ¬ MayBeEmpty c) : 0 < instructionCount (e.body file c) := by
  rw [Nat.pos_iff_ne_zero]
  cases c with
  | push segment index =>
    cases segment <;> simp [Emitter.body, pushCode, pushConstant, pushIndexed, pushSymbol]
  | pop segment index =>
    cases segment <;> simp [Emitter.body, popCode, popIndexed, popD]
  | operate operator =>
    cases operator <;>
      simp [Emitter.body, operatorCode, binaryCode, unaryCode, compareCode, pointAtTop, popD]
  | goto name => simp [Emitter.body, gotoCode]
  | ifGoto name => simp [Emitter.body, ifGotoCode, popD]
  | call name arguments => simp [Emitter.body, callCode]
  | ret => simp [Emitter.body, returnCode]
  | label | function => exact absurd trivial h

theorem address_lt_succ {i : Nat} {c : Placed} (hc : k.commands[i]? = some c)
    (h : ¬ MayBeEmpty c.command) : k.address i < k.address (i + 1) := by
  have hpos := instructionCount_body_pos (k.history i) c.file h
  rw [Compilation.address_succ hc]
  omega

theorem passes_of_arrives {i j size : Nat} (hpc : cpu.pc = k.address i)
    (hlt : k.address i < k.address (i + 1)) (hnext : k.address (i + 1) = cpu.pc + size)
    {m m' : Memory} (harrives : Arrives p size cpu (k.address j) m') (hagree : m'.Agree m) :
    Passes k p i cpu j m := by
  obtain ⟨a, d, hleads⟩ := harrives
  rw [← hnext, hpc] at hleads
  exact .block hlt hleads hagree

/-- The machine before the call of the entry function: the stack is set up and empty. -/
def atEntryCall : Cpu :=
  ⟨Memory.blank.set .sp (BitVec.ofNat 16 stackBase), 0, BitVec.ofNat 16 stackBase,
    instructionCount stackSetup⟩

/-! ### Labels and functions -/

namespace Compilation.Loads

variable {i j : Nat} {c : Placed} (h : k.Loads p)

include h

/-- A goto loads the address of the label command that it goes to. -/
theorem operand_label (hc : k.commands[j]? = some c) {label : String}
    (hcommand : c.command = .label label) :
    (p.operand (.symbol (.localLabel c.owner label))).toNat = k.address j := by
  have hholds := h.holds hc
  have hfits := h.fits hc
  rw [hcommand] at hholds hfits
  rw [(Compilation.units_of_command hc).2]
  exact toNat_operand_label (Compilation.isName_localLabel (h.owner j) hfits) hholds
    (h.address_lt j)

/-- A call loads the address of the function command that it goes to. -/
theorem operand_function (hc : k.commands[j]? = some c) {name : String} {locals : UInt16}
    (hcommand : c.command = .function name locals) :
    (p.operand (.symbol (.function name))).toNat = k.address j := by
  have hholds := h.holds hc
  have hfits : c.command.Fits := h.fits hc
  rw [hcommand] at hholds hfits
  have hname : IsName (Symbol.function name).name := hfits
  exact toNat_operand_label hname hholds (h.address_lt j)

/-- A return continues at the address of the command that its frame stands for. -/
theorem toNat_of_placeIndex? {back : Word} (hj : (k.machine static).placeIndex? back = some j) :
    back.toNat = k.address j := by
  obtain ⟨-, rfl⟩ := placeIndex?_some hj
  exact Nat.mod_eq_of_lt (h.address_lt j)

/-! ### All commands -/

/-- The code of a command, where the machine is at its start. -/
theorem at_start (hc : k.commands[i]? = some c) (hpc : cpu.pc = k.address i) :
    p.Holds cpu.pc ((k.history i).body c.file c.command) ∧
      k.address (i + 1) = cpu.pc + instructionCount ((k.history i).body c.file c.command) := by
  rw [hpc]
  exact ⟨h.holds hc, Compilation.address_succ hc⟩

/-- Code without jumps, when it is known what it leaves in memory. -/
theorem passes_straight (hc : k.commands[i]? = some c) (hpc : cpu.pc = k.address i)
    (hlt : k.address i < k.address (i + 1))
    (hstraight : ((k.history i).body c.file c.command).all Line.isStraight) {m : Memory}
    (hagree : (p.follow ((k.history i).body c.file c.command) cpu).ram.Agree m) :
    Passes k p i cpu (i + 1) m := by
  obtain ⟨hholds, hnext⟩ := h.at_start hc hpc
  have harrives := arrives_block hholds hstraight (by omega)
  rw [← hnext] at harrives
  exact passes_of_arrives hpc hlt hnext harrives hagree

section Kinds

variable {file owner : String}

theorem simulates_push (hstatic : LoadsStatics p static) {segment : Segment} {index : Int32}
    (hc : k.commands[i]? = some ⟨file, owner, .push segment index⟩) (hpc : cpu.pc = k.address i)
    {v : Word} (hv : (k.machine static).value? file cpu.ram segment index.toInt = some v) :
    Passes k p i cpu (i + 1) (cpu.ram.push v) := by
  have hfits := h.fits hc
  refine h.passes_straight hc hpc (address_lt_succ hc id) ?_ ?_
  · cases segment <;> rfl
  · simp only [Emitter.body]
    rw [ram_pushCode h.namesRegisters hstatic file hfits.1 hfits.2 hv]
    exact .refl _

theorem simulates_pop (hstatic : LoadsStatics p static) {segment : Segment} {index : UInt16}
    (hc : k.commands[i]? = some ⟨file, owner, .pop segment index⟩) (hpc : cpu.pc = k.address i)
    {a : Word} (ha : (k.machine static).cell? file cpu.ram segment index.toNat = some a)
    (htop : ¬ Memory.Scratch (cpu.ram.get .sp - 1)) :
    Passes k p i cpu (i + 1) (cpu.ram.popInto a) := by
  refine h.passes_straight hc hpc (address_lt_succ hc id) ?_ ?_
  · cases segment <;> rfl
  · simp only [Emitter.body]
    exact agree_popCode h.namesRegisters hstatic file (h.fits hc).2 ha htop

theorem simulates_operate {operator : Operator}
    (hc : k.commands[i]? = some ⟨file, owner, .operate operator⟩) (hpc : cpu.pc = k.address i) :
    Passes k p i cpu (i + 1) (operate cpu.ram operator) := by
  obtain ⟨hholds, hnext⟩ := h.at_start hc hpc
  simp only [Emitter.body] at hholds hnext
  have harrives := arrives_operatorCode h.namesRegisters hholds (hnext ▸ h.address_lt (i + 1))
  rw [← hnext] at harrives
  exact passes_of_arrives hpc (address_lt_succ hc id) hnext harrives (.refl _)

theorem simulates_goto {label : String}
    (hc : k.commands[i]? = some ⟨file, owner, .goto label⟩) (hpc : cpu.pc = k.address i)
    (hj : labelIndex? k.commands owner label = some j) :
    Passes k p i cpu j cpu.ram := by
  obtain ⟨hholds, hnext⟩ := h.at_start hc hpc
  obtain rfl := (Compilation.units_of_command hc).2
  simp only [Emitter.body] at hholds hnext
  rw [← List.append_nil (gotoCode _)] at hholds
  have harrives := arrives_gotoCode hholds
  obtain ⟨d, hd, howner, hlabel⟩ := labelIndex?_some hj
  rw [← howner, h.operand_label hd hlabel] at harrives
  exact passes_of_arrives hpc (address_lt_succ hc id) hnext harrives (.refl _)

theorem simulates_ifGoto {label : String} {m : Memory}
    (hc : k.commands[i]? = some ⟨file, owner, .ifGoto label⟩) (hpc : cpu.pc = k.address i)
    (hstep : (k.machine static).execute ⟨file, owner, .ifGoto label⟩ ⟨i, cpu.ram⟩ = some ⟨j, m⟩) :
    Passes k p i cpu j m := by
  obtain ⟨hholds, hnext⟩ := h.at_start hc hpc
  have hlt := address_lt_succ hc id
  obtain rfl := (Compilation.units_of_command hc).2
  simp only [Emitter.body] at hholds hnext
  have harrives := arrives_ifGotoCode h.namesRegisters hholds
  rw [← hnext] at harrives
  simp only [execute] at hstep
  -- Both machines look at the same word, so they take the same branch.
  by_cases hzero : cpu.ram.drop.top = 0
  · rw [if_pos hzero] at hstep harrives
    obtain ⟨rfl, rfl⟩ := State.mk.inj (Option.some.inj hstep)
    exact passes_of_arrives hpc hlt hnext harrives (.refl _)
  · rw [if_neg hzero] at hstep harrives
    obtain ⟨j', hj, heq⟩ := Option.map_eq_some_iff.1 hstep
    obtain ⟨rfl, rfl⟩ := State.mk.inj heq
    obtain ⟨d, hd, howner, hlabel⟩ := labelIndex?_some hj
    rw [← howner, h.operand_label hd hlabel] at harrives
    exact passes_of_arrives hpc hlt hnext harrives (.refl _)

theorem simulates_function {name : String} {locals : UInt16}
    (hc : k.commands[i]? = some ⟨file, owner, .function name locals⟩)
    (hpc : cpu.pc = k.address i) :
    Passes k p i cpu (i + 1) (cpu.ram.pushZeros locals.toNat) := by
  obtain ⟨-, hnext⟩ := h.at_start hc hpc
  rw [Emitter.body, hpc, instructionCount_functionCode] at hnext
  -- Without local variables, the code is a label only.
  rcases Nat.eq_zero_or_pos locals.toNat with hzero | hpos
  · rw [hzero] at hnext ⊢
    exact .empty hnext
  · have hlt : k.address i < k.address (i + 1) := by omega
    refine h.passes_straight hc hpc hlt ?_ ?_
    · simp [Emitter.body, functionCode, pushZero, Line.isStraight, Line.load, Line.set]
    · simp only [Emitter.body]
      rw [ram_functionCode h.namesRegisters]
      exact .refl _

/-- A call gets to the function, and the scratch registers are not involved. -/
theorem arrives_call {name : String} {arguments locals : UInt16} {d : Placed}
    (hc : k.commands[i]? = some ⟨file, owner, .call name arguments⟩) (hpc : cpu.pc = k.address i)
    (hd : k.commands[j]? = some d) (hfunction : d.command = .function name locals)
    (hfits : arguments.toNat + frameSize < 65536) :
    Arrives p (k.address (i + 1) - k.address i) cpu (k.address j)
      (cpu.ram.enter (BitVec.ofNat 16 (k.address (i + 1))) (BitVec.ofNat 16 arguments.toNat)) := by
  obtain ⟨hholds, hnext⟩ := h.at_start hc hpc
  simp only [Emitter.body] at hholds hnext
  have harrives := arrives_callCode h.namesRegisters hholds hfits
  rw [← hnext, h.operand_function hd hfunction] at harrives
  rwa [show k.address (i + 1) - k.address i =
    instructionCount (callCode ((k.history i).calls + 1) name arguments) by omega]

theorem simulates_call {name : String} {arguments : UInt16}
    (hc : k.commands[i]? = some ⟨file, owner, .call name arguments⟩) (hpc : cpu.pc = k.address i)
    (hj : functionIndex? k.commands name = some j)
    (hfits : arguments.toNat + frameSize < 65536) :
    Passes k p i cpu j (cpu.ram.enter (BitVec.ofNat 16 (k.address (i + 1)))
      (BitVec.ofNat 16 arguments.toNat)) := by
  obtain ⟨d, locals, hd, hfunction⟩ := functionIndex?_some hj
  have hlt := address_lt_succ hc id
  exact passes_of_arrives hpc hlt (by omega) (h.arrives_call hc hpc hd hfunction hfits) (.refl _)

/-- A return gets to the return address, whatever stands there. -/
theorem arrives_ret (hc : k.commands[i]? = some ⟨file, owner, .ret⟩) (hpc : cpu.pc = k.address i)
    (hreads : ∀ a ∈ (k.machine static).addressesRead ⟨file, owner, .ret⟩ cpu.ram,
      ¬ Memory.Scratch a) :
    ∃ m, Arrives p (k.address (i + 1) - k.address i) cpu cpu.ram.returnAddress.toNat m ∧
      m.Agree cpu.ram.leave := by
  obtain ⟨hholds, hnext⟩ := h.at_start hc hpc
  simp only [Emitter.body] at hholds hnext
  have hframe := (k.machine static).not_scratch_frame hreads
  have harrives := arrives_returnCode h.namesRegisters hholds
    (hreads _ (by simp [addressesRead])) (hframe 5 (by simp))
  rw [show instructionCount returnCode = k.address (i + 1) - k.address i by omega] at harrives
  refine ⟨_, harrives, unwound_agree ?_ ?_⟩
  · exact hreads _ (by simp [addressesRead])
  · exact fun i hi => hframe i (by grind)

theorem simulates_ret (hc : k.commands[i]? = some ⟨file, owner, .ret⟩) (hpc : cpu.pc = k.address i)
    (hj : (k.machine static).placeIndex? cpu.ram.returnAddress = some j)
    (hreads : ∀ a ∈ (k.machine static).addressesRead ⟨file, owner, .ret⟩ cpu.ram,
      ¬ Memory.Scratch a) :
    Passes k p i cpu j cpu.ram.leave := by
  obtain ⟨m, harrives, hagree⟩ := h.arrives_ret hc hpc hreads
  rw [h.toNat_of_placeIndex? hj] at harrives
  have hlt := address_lt_succ hc id
  exact passes_of_arrives hpc hlt (by omega) harrives hagree

end Kinds

/-- **Every block does what its command means**: one step of the virtual machine, from the memory of
    the machine below. Only the code that uses the scratch registers itself must not read them. -/
theorem simulates (hstatic : LoadsStatics p static) (hc : k.commands[i]? = some c)
    (hpc : cpu.pc = k.address i)
    (hreads : usesScratch c.command → ∀ a ∈ (k.machine static).addressesRead c cpu.ram,
      ¬ Memory.Scratch a)
    (hargs : ∀ name arguments, c.command = .call name arguments →
      arguments.toNat + frameSize < 65536) {m : Memory}
    (hstep : (k.machine static).execute c ⟨i, cpu.ram⟩ = some ⟨j, m⟩) :
    Passes k p i cpu j m := by
  obtain ⟨file, owner, command⟩ := c
  cases command with
  | push segment index =>
    obtain ⟨v, hv, heq⟩ := Option.map_eq_some_iff.1 hstep
    obtain ⟨rfl, rfl⟩ := State.mk.inj heq
    exact h.simulates_push hstatic hc hpc hv
  | pop segment index =>
    obtain ⟨a, ha, heq⟩ := Option.map_eq_some_iff.1 hstep
    obtain ⟨rfl, rfl⟩ := State.mk.inj heq
    exact h.simulates_pop hstatic hc hpc ha (hreads rfl _ (by simp [addressesRead]))
  | operate operator =>
    obtain ⟨rfl, rfl⟩ := State.mk.inj (Option.some.inj hstep)
    exact h.simulates_operate hc hpc
  | label name =>
    obtain ⟨rfl, rfl⟩ := State.mk.inj (Option.some.inj hstep)
    exact .empty (Compilation.address_succ hc)
  | goto name =>
    obtain ⟨j', hj, heq⟩ := Option.map_eq_some_iff.1 hstep
    obtain ⟨rfl, rfl⟩ := State.mk.inj heq
    exact h.simulates_goto hc hpc hj
  | ifGoto name => exact h.simulates_ifGoto hc hpc hstep
  | function name locals =>
    obtain ⟨rfl, rfl⟩ := State.mk.inj (Option.some.inj hstep)
    exact h.simulates_function hc hpc
  | call name arguments =>
    obtain ⟨j', hj, heq⟩ := Option.map_eq_some_iff.1 hstep
    obtain ⟨rfl, rfl⟩ := State.mk.inj heq
    exact h.simulates_call hc hpc hj (hargs name arguments rfl)
  | ret =>
    obtain ⟨j', hj, heq⟩ := Option.map_eq_some_iff.1 hstep
    obtain ⟨rfl, rfl⟩ := State.mk.inj heq
    exact h.simulates_ret hc hpc hj (hreads rfl)

/-! ### The start -/

/-- The code before that of the first command, and where it ends. -/
theorem holds_prologue (hbootstrap : k.bootstrap = true) :
    p.Holds 0 stackSetup ∧
      p.Holds (instructionCount stackSetup) (callCode (k.emitter.calls + 1) entryFunction 0) ∧
      k.address 0 = instructionCount stackSetup +
        instructionCount (callCode (k.emitter.calls + 1) entryFunction 0) := by
  have hprologue : k.prologue = k.emitter.note "bootstrap" ++ (stackSetup ++
      callCode (k.emitter.calls + 1) entryFunction 0) := by
    simp [Compilation.prologue, hbootstrap, Emitter.bootstrap]
  have hholds := h.holds_code
  rw [Compilation.code, hprologue] at hholds
  have hblock := (Program.holds_append.1 (Program.holds_append.1 hholds).1).2
  rw [Compilation.instructionCount_note] at hblock
  obtain ⟨hsetup, hcall⟩ := Program.holds_append.1 hblock
  refine ⟨hsetup, by simpa using hcall, ?_⟩
  simp [Compilation.address, hprologue, Compilation.instructionCount_note, Emitter.codeUnits]

/-- The stack gets set up first. -/
theorem leads_setup (hbootstrap : k.bootstrap = true) :
    Cpu.start.Leads p.rom 0 (instructionCount stackSetup) atEntryCall := by
  have hleads := leads_follow (c := Cpu.start) (h.holds_prologue hbootstrap).1 rfl (by decide)
  have hfollow : p.follow stackSetup .start = atEntryCall := by
    simp only [stackSetup, follow_cons, follow_nil, advance_load h.namesRegisters, advance_number,
      advance_set_d, advance_set_m, computationValue, operandValue, Cpu.start,
      operand_number p (by decide : stackBase < 65536), Memory.write_address, atEntryCall]
    rfl
  rw [hfollow] at hleads
  exact hleads

/-- Then the entry function is called, with a frame that returns to the first command. -/
theorem leads_entry (hbootstrap : k.bootstrap = true)
    (hj : functionIndex? k.commands entryFunction = some j) :
    ∃ a d, atEntryCall.Leads p.rom (instructionCount stackSetup) (k.address 0)
      ⟨startRam (BitVec.ofNat 16 (k.address 0)), a, d, k.address j⟩ := by
  obtain ⟨-, hcall, hfirst⟩ := h.holds_prologue hbootstrap
  obtain ⟨a, d, hentry⟩ :=
    arrives_callCode (c := atEntryCall) h.namesRegisters hcall (by decide)
  -- The label of the return point stands right before the first command.
  obtain ⟨e, locals, he, hfunction⟩ := functionIndex?_some hj
  have hpc : atEntryCall.pc = instructionCount stackSetup := rfl
  simp only [hpc, ← hfirst, h.operand_function he hfunction] at hentry
  exact ⟨a, d, hentry⟩

theorem entryCall_lt (hbootstrap : k.bootstrap = true) :
    instructionCount stackSetup < k.address 0 := by
  rw [(h.holds_prologue hbootstrap).2.2, instructionCount_callCode]
  omega

/-- **The start of a program gets to the entry function**, with the stack set up. -/
theorem leads_start (hbootstrap : k.bootstrap = true)
    (hj : functionIndex? k.commands entryFunction = some j) :
    ∃ a d, Cpu.start.Leads p.rom 0 (k.address 0)
      ⟨startRam (BitVec.ofNat 16 (k.address 0)), a, d, k.address j⟩ := by
  have hlt := h.entryCall_lt hbootstrap
  obtain ⟨a, d, hentry⟩ := h.leads_entry hbootstrap hj
  exact ⟨a, d, ((h.leads_setup hbootstrap).mono le_rfl hlt.le).trans (by decide) hlt
    (hentry.mono (Nat.zero_le _) le_rfl)⟩

end Compilation.Loads

end HackVM.Codegen
