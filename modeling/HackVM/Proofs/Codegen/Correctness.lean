import HackVM.Proofs.Codegen.Simulation

namespace HackVM.Codegen

open Asm Machine StackMachine

/-!
# The compiler is correct

Code that starts a program runs like the virtual machine: for every run of the virtual machine, the
machine gets from the moment it is switched on to the code of the command that the run has got to,
with the same memory up to the scratch registers.

* `Compilation.At` — the states of the two machines that belong together;
* `Loads.follows_run` — runs of any length, from any state;
* `compiled_program_runs_like_stackMachine` — the whole program, from the start.
-/

/-- The addresses of variables in the symbols of a program. -/
def statics (p : Program) (file : String) (index : Nat) : Option Word :=
  p.symbols.find? (file ++ "." ++ toString index)

namespace Compilation

/-- The machine is at the code of the next command, and its memory is that of the virtual machine up
    to the scratch registers. -/
structure At (k : Compilation) (s : State) (cpu : Cpu) : Prop where
  /-- The counter is at the code of the next command. -/
  pc : cpu.pc = k.address s.index
  /-- The memories agree. -/
  ram : cpu.ram.Agree s.ram

namespace Loads

variable {k : Compilation} {p : Program} {static : String → Nat → Option Word} (h : k.Loads p)

include h

/-! ### Runs -/

/-- What the machine does when the virtual machine makes a step. -/
theorem follows_step (hstatic : LoadsStatics p static) {s t : State} {c : Placed} {cpu : Cpu}
    (hat : k.At s cpu) (hc : k.commands[s.index]? = some c)
    (hclear : (k.machine static).Clear c s.ram) (hstep : (k.machine static).step s = some t) :
    ∃ steps cpu', cpu.run p.rom steps = (cpu', none) ∧ k.At t cpu' := by
  obtain ⟨j, u⟩ := t
  have hexecute : (k.machine static).execute c s = some ⟨j, u⟩ := by
    simpa [StackMachine.step, Compilation.machine, hc] using hstep
  -- The step can be made from the machine's own memory, with the same outcome.
  obtain ⟨m, hm, hagree⟩ := execute_congr hat.ram.symm hclear hexecute
  have hclear' := hclear.congr hat.ram.symm
  have hpasses := h.simulates hstatic hc hat.pc (fun _ => hclear'.reads) hclear'.fits hm
  cases hpasses with
  | empty hsize => exact ⟨0, cpu, rfl, hat.pc.trans hsize.symm, hagree.symm⟩
  | block hsize hleads hagree' =>
    obtain ⟨steps, -, hrun, -⟩ := hleads
    exact ⟨steps, _, hrun, rfl, hagree'.trans hagree.symm⟩

/-- **The machine follows every run of the virtual machine.**  The induction is on the length of the
    run; what it carries along is that the two states belong together. -/
theorem follows_run (hstatic : LoadsStatics p static) {n : Nat} {s t : State}
    (hrun : (k.machine static).Run n s t) {cpu : Cpu} (hat : k.At s cpu) :
    ∃ steps cpu', cpu.run p.rom steps = (cpu', none) ∧ k.At t cpu' := by
  induction hrun with
  | refl s => exact ⟨0, cpu, rfl, hat⟩
  | step hrun hc hclear hstep ih =>
    obtain ⟨first, cpu₁, hfirst, hat₁⟩ := ih hat
    obtain ⟨second, cpu₂, hsecond, hat₂⟩ := h.follows_step hstatic hat₁ hc hclear hstep
    exact ⟨first + second, cpu₂, by rw [Cpu.run_add_of_ok hfirst, hsecond], hat₂⟩

/-! ### Variables -/

theorem loadsStatics : LoadsStatics p (statics p) :=
  fun _ _ _ hfind => operand_static h.passes hfind

/-- A variable that code uses has an address, unless a comment starts in the name of its file. -/
theorem statics_ne_none {i : Nat} {c : Placed} {index : UInt16} (hc : k.commands[i]? = some c)
    (hmem : Line.symbol (.static c.file index) ∈ (k.history i).body c.file c.command)
    (hfile : ¬ ['/', '/'] <:+: c.file.toList) : statics p c.file index.toNat ≠ none := by
  have hcode : Line.symbol (.static c.file index) ∈ k.code := by
    obtain ⟨rest, hsplit⟩ := code_split hc
    rw [hsplit]
    simp [hmem]
  have hstatement : Statement.symbol (Symbol.static c.file index).name ∈
      statements (k.code.map Line.render) := by
    rw [statements_eq_filterMap, List.mem_filterMap]
    exact ⟨_, List.mem_map_of_mem hcode, statement?_static hfile index⟩
  obtain ⟨v, hv⟩ := h.passes.known _ hstatement
  have hname : c.file ++ "." ++ toString index.toNat = (Symbol.static c.file index).name := rfl
  rw [statics, hname, hv]
  simp

theorem slashes_of_lacksStatic {i : Nat} {c : Placed} (hc : k.commands[i]? = some c)
    (hlacks : (k.machine (statics p)).LacksStatic c) : ['/', '/'] <:+: c.file.toList := by
  by_contra hfile
  have hfits := h.fits hc
  have hknown : ∀ index : UInt16,
      Line.symbol (.static c.file index) ∈ (k.history i).body c.file c.command →
      statics p c.file index.toNat ≠ none := fun _ hmem => h.statics_ne_none hc hmem hfile
  obtain ⟨file, owner, command⟩ := c
  unfold LacksStatic at hlacks
  split at hlacks
  · next index heq =>
    simp only at heq
    subst heq
    refine hknown (indexOf index.toInt) (by simp [Emitter.body, pushCode, pushSymbol]) ?_
    have hhi : index.toInt ≤ 32767 := hfits.2
    rw [toNat_indexOf hfits.1 (by omega)]
    exact hlacks
  · next index heq =>
    simp only at heq
    subst heq
    exact hknown index (by simp [Emitter.body, popCode]) hlacks
  · exact hlacks

end Loads

end Compilation

/-! ### Programs -/

/-- **Compiled programs run like the virtual machine.**  Whatever the files of a program are, if
    their commands can be read, the code assembles, and everything that commands refer to is
    declared, then the virtual machine has a state to start from, and for every run of it from
    there, of any length, the machine gets from the moment it is switched on to the code of the
    command that the run has got to, without a fault and with the same memory but for the scratch
    registers.  Runs are of clear commands: none reads a scratch register through an address that
    it computes, and no call has more than 65530 arguments.  The virtual machine itself stops only
    at the end of the program, at a return to a place that does not exist, and at a variable of a
    file in whose name a comment starts. -/
theorem compiled_program_runs_like_stackMachine {k : Compilation} {p : Program} (h : k.Loads p)
    (hbootstrap : k.bootstrap = true) (hresolved : Resolved k.commands) :
    ∃ s, (k.machine (statics p)).start? = some s ∧
      (∀ n t, (k.machine (statics p)).Run n s t →
        ∃ steps cpu, Cpu.start.run p.rom steps = (cpu, none) ∧ cpu.pc = k.address t.index ∧
          ∀ a, ¬ Memory.Scratch a → cpu.ram.read a = t.ram.read a) ∧
      ∀ t, (k.machine (statics p)).step t = none →
        k.commands[t.index]? = none ∨ ∃ c, k.commands[t.index]? = some c ∧
          (c.command = .ret ∧ (k.machine (statics p)).placeIndex? t.ram.returnAddress = none ∨
            ['/', '/'] <:+: c.file.toList) := by
  obtain ⟨j, hj⟩ := Option.isSome_iff_exists.1 hresolved.entry
  refine ⟨_, Option.map_eq_some_iff.2 ⟨j, hj, rfl⟩, ?_, ?_⟩
  · intro n t hrun
    obtain ⟨a, d, first, -, hfirst, -⟩ := h.leads_start hbootstrap hj
    have hstart : k.At ⟨j, startRam (BitVec.ofNat 16 (k.address 0))⟩
        ⟨startRam (BitVec.ofNat 16 (k.address 0)), a, d, k.address j⟩ := ⟨rfl, .refl _⟩
    obtain ⟨second, cpu, hsecond, hat⟩ := h.follows_run h.loadsStatics hrun hstart
    exact ⟨first + second, cpu, by rw [Cpu.run_add_of_ok hfirst, hsecond], hat.pc, hat.ram⟩
  · intro t hstep
    have hfits : ∀ c ∈ k.commands, c.command.Fits := fun c hc =>
      let ⟨_, hi⟩ := List.getElem?_of_mem hc
      h.fits hi
    rcases step_eq_none hresolved hfits hstep with hend | ⟨c, hc, hret | hlacks⟩
    · exact .inl hend
    · exact .inr ⟨c, hc, .inl hret⟩
    · exact .inr ⟨c, hc, .inr (h.slashes_of_lacksStatic hc hlacks)⟩

/-- The first three commands of the example: its entry function pushes a number and calls. -/
theorem doubling_run (static : String → Nat → Option Word) :
    ∃ s t, (doubling.machine static).start? = some s ∧ (doubling.machine static).Run 3 s t ∧
      t.index = 6 := by
  refine ⟨_, _, rfl, .step (.step (.step (.refl _) rfl ⟨?_, nofun⟩ rfl) rfl ⟨?_, nofun⟩ rfl) rfl
    ⟨?_, ?_⟩ rfl, rfl⟩
  · exact List.forall_mem_nil _
  · exact List.forall_mem_nil _
  · exact List.forall_mem_nil _
  · rintro name arguments hcall
    obtain ⟨-, rfl⟩ := Command.call.inj hcall
    decide

theorem doubling_runs_like_stackMachine :
    doubling.Loads doublingProgram ∧ doubling.bootstrap = true ∧ Resolved doubling.commands ∧
      ∃ s t, (doubling.machine (statics doublingProgram)).start? = some s ∧
        (doubling.machine (statics doublingProgram)).Run 3 s t ∧
        ∃ steps cpu, Cpu.start.run doublingProgram.rom steps = (cpu, none) ∧
          cpu.pc = doubling.address 6 ∧
          ∀ a, ¬ Memory.Scratch a → cpu.ram.read a = t.ram.read a := by
  obtain ⟨s, hs, hrun, -⟩ :=
    compiled_program_runs_like_stackMachine doubling_loads rfl doubling_resolved
  obtain ⟨s', t, hs', hrun', hindex⟩ := doubling_run (statics doublingProgram)
  obtain rfl := Option.some.inj (hs'.symm.trans hs)
  obtain ⟨steps, cpu, hsteps, hpc, hram⟩ := hrun 3 t hrun'
  exact ⟨doubling_loads, rfl, doubling_resolved, s', t, hs', hrun', steps, cpu, hsteps,
    hindex ▸ hpc, hram⟩

end HackVM.Codegen
