import HackVM.Proofs.Codegen.Simulation
import HackVM.Proofs.Machine.Frame

namespace HackVM.Codegen

open Asm Machine StackMachine

/-!
# Calls and returns fit together

A call saves the caller's frame at the top of the stack, and a return from that frame, whichever
`return` it is, takes it down again: the caller goes on after the call with its own registers and
with the result in place of the arguments.

* `Loads.call_effect` — what a call leaves at every address;
* `Loads.return_effect` — what a return leaves at every address;
* `call_return_symmetry` — both, for one call and every return from it.
-/

namespace Compilation.Loads

variable {k : Compilation} {p : Program} {i j : Nat} {c d : Placed} {cpu : Cpu} (h : k.Loads p)

include h

/-- **What a call does.**  The machine gets to the function, with the caller's frame on the stack
    and the function's registers set, and with every other word as it was. -/
theorem call_effect {name : String} {arguments locals : UInt16} (hc : k.commands[i]? = some c)
    (hcall : c.command = .call name arguments) (hd : k.commands[j]? = some d)
    (hfunction : d.command = .function name locals) (hpc : cpu.pc = k.address i)
    (hlo : arguments.toNat + 256 ≤ (cpu.ram.get .sp).toNat)
    (hhi : (cpu.ram.get .sp).toNat + 5 ≤ 32767) :
    ∃ steps cpu', cpu.run p.rom steps = (cpu', none) ∧ cpu'.pc = k.address j ∧
      cpu'.ram.frameBelow (cpu.ram.get .sp + 5) =
        cpu.ram.callerFrame (BitVec.ofNat 16 (k.address (i + 1))) ∧
      cpu'.ram.get .arg = cpu.ram.get .sp - BitVec.ofNat 16 arguments.toNat ∧
      cpu'.ram.get .lcl = cpu.ram.get .sp + 5 ∧ cpu'.ram.get .sp = cpu.ram.get .sp + 5 ∧
      ∀ a : Word, 2 < a.toNat →
        a.toNat < (cpu.ram.get .sp).toNat ∨ (cpu.ram.get .sp).toNat + 5 ≤ a.toNat →
        cpu'.ram.read a = cpu.ram.read a := by
  obtain ⟨file, owner, command⟩ := c
  obtain rfl : command = .call name arguments := hcall
  have hfits : arguments.toNat + frameSize < 65536 := by
    rw [frameSize]
    omega
  obtain ⟨a, d, steps, -, hrun, -⟩ := h.arrives_call hc hpc hd hfunction hfits
  have hsp : 16 ≤ (cpu.ram.get .sp).toNat := by omega
  have hend : (cpu.ram.get .sp).toNat + 5 < 65536 := by omega
  exact ⟨steps, _, hrun, rfl, Memory.frameBelow_enter hsp hend _ _,
    Memory.get_arg_enter hsp hend _ _, Memory.get_lcl_enter hsp hend _ _,
    Memory.get_sp_enter hsp hend _ _, fun a ha hout => Memory.read_enter hsp hend _ _ ha hout⟩

/-- **What a return does.**  The machine gets to the return address, with the caller's registers
    from the frame, with the result in place of the first argument and the stack cut off after it,
    and with every other word as it was but for the scratch registers. -/
theorem return_effect (hc : k.commands[i]? = some c) (hret : c.command = .ret)
    (hpc : cpu.pc = k.address i) (hlo : 256 ≤ (cpu.ram.get .arg).toNat)
    (hframe : (cpu.ram.get .arg).toNat + 5 ≤ (cpu.ram.get .lcl).toNat)
    (hsp : (cpu.ram.get .lcl).toNat < (cpu.ram.get .sp).toNat) {f : Memory.Frame}
    (hf : cpu.ram.frameBelow (cpu.ram.get .lcl) = f) :
    ∃ steps cpu', cpu.run p.rom steps = (cpu', none) ∧ cpu'.pc = f.back.toNat ∧
      cpu'.ram.get .sp = cpu.ram.get .arg + 1 ∧
      cpu'.ram.read (cpu.ram.get .arg) = cpu.ram.read (cpu.ram.get .sp - 1) ∧
      cpu'.ram.callerFrame f.back = f ∧
      ∀ a : Word, 4 < a.toNat → a ≠ cpu.ram.get .arg → ¬ Memory.Scratch a →
        cpu'.ram.read a = cpu.ram.read a := by
  obtain ⟨file, owner, command⟩ := c
  obtain rfl : command = .ret := hret
  have harg : 16 ≤ (cpu.ram.get .arg).toNat := by omega
  -- Variables do not matter here, so any machine of the compilation will do.
  have hreads := (k.machine fun _ _ => none).not_scratch_of_mem_addressesRead_ret
    (c := ⟨file, owner, .ret⟩) rfl harg hframe hsp
  obtain ⟨m, ⟨a, d, steps, -, hrun, -⟩, hagree⟩ := h.arrives_ret hc hpc hreads
  have hback : cpu.ram.returnAddress = f.back := by rw [← hf]; rfl
  rw [hback] at hrun
  refine ⟨steps, _, hrun, rfl, ?_, ?_, ?_, ?_⟩
  · exact hagree.sp.trans (Memory.get_sp_leave harg hframe hsp)
  · exact (hagree _ (Memory.not_scratch_of_le harg)).trans (Memory.read_arg_leave harg hframe hsp)
  · rw [hagree.callerFrame, ← hf]
    exact Memory.callerFrame_leave harg hframe hsp
  · intro a ha hne hs
    exact (hagree a hs).trans (Memory.read_leave_of_ne harg hframe hsp ha hne)

end Compilation.Loads

/-- **Calls and returns are symmetric.**  Take a call of a declared function, and a state of the
    machine at the start of its code, with room on the stack.  The machine gets to the function,
    with the return address and the caller's registers in the five words from the stack pointer on,
    `ARG` at the arguments, `LCL` and `SP` after the frame, and every other word as it was.  And
    from every state at the start of the code of any return that has `LCL` and `ARG` like this and
    the frame still in place, the machine gets to the instruction after that call, with the result
    in place of the arguments, `SP` after it, the caller's registers as they were before the call,
    and every other word as it was but for the scratch registers. -/
theorem call_return_symmetry {k : Compilation} {p : Program} (h : k.Loads p) {i j : Nat}
    {c d : Placed} {name : String} {arguments locals : UInt16} (hc : k.commands[i]? = some c)
    (hcall : c.command = .call name arguments) (hd : k.commands[j]? = some d)
    (hfunction : d.command = .function name locals) {cpu : Cpu} (hpc : cpu.pc = k.address i)
    {s : Word} (hs : cpu.ram.get .sp = s) (hlo : arguments.toNat + 256 ≤ s.toNat)
    (hhi : s.toNat + 5 ≤ 32767) :
    (∃ steps cpu', cpu.run p.rom steps = (cpu', none) ∧ cpu'.pc = k.address j ∧
      cpu'.ram.frameBelow (s + 5) = ⟨BitVec.ofNat 16 (k.address (i + 1)), cpu.ram.get .lcl,
        cpu.ram.get .arg, cpu.ram.get .this, cpu.ram.get .that⟩ ∧
      cpu'.ram.get .arg = s - BitVec.ofNat 16 arguments.toNat ∧
      cpu'.ram.get .lcl = s + 5 ∧ cpu'.ram.get .sp = s + 5 ∧
      ∀ a : Word, 2 < a.toNat → a.toNat < s.toNat ∨ s.toNat + 5 ≤ a.toNat →
        cpu'.ram.read a = cpu.ram.read a) ∧
    ∀ (r : Nat) (e : Placed) (cpu₁ : Cpu), k.commands[r]? = some e → e.command = .ret →
      cpu₁.pc = k.address r → cpu₁.ram.get .lcl = s + 5 →
      cpu₁.ram.get .arg = s - BitVec.ofNat 16 arguments.toNat →
      cpu₁.ram.frameBelow (s + 5) = ⟨BitVec.ofNat 16 (k.address (i + 1)), cpu.ram.get .lcl,
        cpu.ram.get .arg, cpu.ram.get .this, cpu.ram.get .that⟩ →
      s.toNat + 6 ≤ (cpu₁.ram.get .sp).toNat → (cpu₁.ram.get .sp).toNat ≤ 32767 →
      ∃ steps cpu', cpu₁.run p.rom steps = (cpu', none) ∧ cpu'.pc = k.address (i + 1) ∧
        cpu'.ram.get .sp = s - BitVec.ofNat 16 arguments.toNat + 1 ∧
        cpu'.ram.read (s - BitVec.ofNat 16 arguments.toNat) =
          cpu₁.ram.read (cpu₁.ram.get .sp - 1) ∧
        cpu'.ram.get .lcl = cpu.ram.get .lcl ∧ cpu'.ram.get .arg = cpu.ram.get .arg ∧
        cpu'.ram.get .this = cpu.ram.get .this ∧ cpu'.ram.get .that = cpu.ram.get .that ∧
        ∀ a : Word, 4 < a.toNat → a ≠ s - BitVec.ofNat 16 arguments.toNat →
          ¬ Memory.Scratch a → cpu'.ram.read a = cpu₁.ram.read a := by
  subst hs
  refine ⟨h.call_effect hc hcall hd hfunction hpc hlo hhi, ?_⟩
  intro r e cpu₁ he hret hpc₁ hlcl harg hframe hsp hmax
  have hargs := arguments.toNat_lt
  have hback : (BitVec.ofNat 16 (k.address (i + 1))).toNat = k.address (i + 1) :=
    Nat.mod_eq_of_lt (h.address_lt (i + 1))
  -- The frame of the call is the one below the local variables of the return.
  obtain ⟨steps, cpu', hrun, hpc', hsp', hresult, hcaller, hrest⟩ :=
    h.return_effect he hret hpc₁ (by rw [harg]; bv_omega) (by rw [harg, hlcl]; bv_omega)
      (by rw [hlcl]; bv_omega) (hlcl ▸ hframe)
  obtain ⟨-, hlcl', harg', hthis', hthat'⟩ := Memory.Frame.mk.inj hcaller
  rw [harg] at hsp' hresult hrest
  exact ⟨steps, cpu', hrun, hpc'.trans hback, hsp', hresult, hlcl', harg', hthis', hthat', hrest⟩

/-- The machine before a call without arguments, some way up the stack. -/
def beforeSeven : Cpu :=
  ⟨Memory.blank.set .sp 300, 0, 0, doubling.address 3⟩

/-- Without arguments the result takes the place of the saved return address. -/
theorem doubling_call_return :
    doubling.Loads doublingProgram ∧ beforeSeven.pc = doubling.address 3 ∧
      beforeSeven.ram.get .sp = 300 ∧
      (∃ steps cpu', beforeSeven.run doublingProgram.rom steps = (cpu', none) ∧
        cpu'.pc = doubling.address 13 ∧
        cpu'.ram.frameBelow 305 = ⟨BitVec.ofNat 16 (doubling.address 4), 0, 0, 0, 0⟩ ∧
        cpu'.ram.get .arg = 300 ∧ cpu'.ram.get .lcl = 305 ∧ cpu'.ram.get .sp = 305) ∧
      ∀ cpu₁ : Cpu, cpu₁.pc = doubling.address 17 → cpu₁.ram.get .lcl = 305 →
        cpu₁.ram.get .arg = 300 →
        cpu₁.ram.frameBelow 305 = ⟨BitVec.ofNat 16 (doubling.address 4), 0, 0, 0, 0⟩ →
        cpu₁.ram.get .sp = 306 →
        ∃ steps cpu', cpu₁.run doublingProgram.rom steps = (cpu', none) ∧
          cpu'.pc = doubling.address 4 ∧ cpu'.ram.get .sp = 301 ∧
          cpu'.ram.read 300 = cpu₁.ram.read 305 := by
  have hsp : beforeSeven.ram.get .sp = 300 := by decide +kernel
  have hcalled : doubling.commands[13]? = some ⟨"Main", "Main.double", .function "Main.seven" 0⟩ :=
    rfl
  have hleft : doubling.commands[17]? = some ⟨"Main", "Main.seven", .ret⟩ := rfl
  have hcalling : doubling.commands[3]? = some ⟨"Sys", "Sys.init", .call "Main.seven" 0⟩ := rfl
  have hframe : beforeSeven.ram.callerFrame (BitVec.ofNat 16 (doubling.address 4)) =
      ⟨BitVec.ofNat 16 (doubling.address 4), 0, 0, 0, 0⟩ := rfl
  obtain ⟨⟨steps, cpu', hrun, hpc, hsaved, harg, hlcl, htop, -⟩, hreturn⟩ :=
    call_return_symmetry doubling_loads hcalling rfl hcalled rfl
      (show beforeSeven.pc = _ from rfl) hsp (by decide) (by decide)
  rw [Memory.callerFrame] at hframe
  rw [hframe] at hsaved hreturn
  refine ⟨doubling_loads, rfl, hsp, ⟨steps, cpu', hrun, hpc, hsaved, harg, hlcl, htop⟩, ?_⟩
  intro cpu₁ hpc₁ hlcl₁ harg₁ hframe₁ hsp₁
  obtain ⟨steps, cpu', hrun, hpc, hsp', hresult, -⟩ :=
    hreturn 17 _ cpu₁ hleft rfl hpc₁ hlcl₁ harg₁ hframe₁ (by rw [hsp₁]; decide)
      (by rw [hsp₁]; decide)
  rw [hsp₁] at hresult
  exact ⟨steps, cpu', hrun, hpc, hsp', hresult⟩

end HackVM.Codegen
