import HackVM.Proofs.Codegen.Simulation
import HackVM.Proofs.Machine.CallChain

namespace HackVM.Codegen

open Asm Machine StackMachine

/-!
# The call stack stays intact

As long as a program keeps to its own part of the stack, the frames of the calls that have not
returned stay in memory, one below the other, and every return goes back to the last of them.

* `Compilation.pendingAt` — the frames that the calls up to a point of the run have saved and no
  return has taken back yet, kept by an observer outside the machine;
* `Disciplined` — a command keeps to its own part of the stack;
* `intact_execute` — such a command keeps the chain of frames;
* `Loads.next_boundary` — the machine gets from one command to the next, and
  `call_stack_integrity` — whole runs.
-/

/-! ### What a command must keep to -/

/-- What a command does to the frames of pending calls: a call adds the one that it saves, and a
    return takes the last one off. -/
def framesAfter (saved : Memory.Frame) (frames : List Memory.Frame) : Command → List Memory.Frame
  | .call .. => saved :: frames
  | .ret => frames.tail
  | _ => frames

theorem mem_framesAfter {f saved : Memory.Frame} {frames : List Memory.Frame} {command : Command}
    (h : f ∈ framesAfter saved frames command) :
    (f = saved ∧ ∃ name arguments, command = .call name arguments) ∨ f ∈ frames := by
  cases command with
  | call name arguments => exact (List.mem_cons.1 h).imp_left fun hf => ⟨hf, name, arguments, rfl⟩
  | ret => exact .inr (List.mem_of_mem_tail h)
  | push | pop | operate | label | goto | ifGoto | function => exact .inr h

/-- Whether a pop into a segment may write to an address: to the addresses of variables; and
    through the pointers to the arguments, or to the local variables and above. -/
def MayPopInto (m : Memory) (a : Word) : Segment → Prop
  | .statics => 16 ≤ a.toNat ∧ a.toNat ≤ 255
  | .locals | .arguments | .this | .that =>
    (m.get .arg).toNat ≤ a.toNat ∧ a.toNat < (m.get .lcl).toNat - 5 ∨
      (m.get .lcl).toNat ≤ a.toNat
  | .constant | .pointer | .temp => True

instance (m : Memory) (a : Word) : (segment : Segment) → Decidable (MayPopInto m a segment)
  | .statics => inferInstanceAs (Decidable (_ ∧ _))
  | .locals | .arguments | .this | .that => inferInstanceAs (Decidable (_ ∧ _ ∨ _))
  | .constant | .pointer | .temp => inferInstanceAs (Decidable True)

/-- A command keeps to the function's own part of the stack: it takes nothing from below the local
    variables, and pops only to where it may. -/
def Disciplined (vm : StackMachine) (c : Placed) (m : Memory) : Prop :=
  match c.command with
  | .pop segment index =>
    (m.get .lcl).toNat < (m.get .sp).toNat ∧
      ∀ a ∈ vm.cell? c.file m segment index.toNat, MayPopInto m a segment
  | .operate operator =>
    if operator = .neg ∨ operator = .not then (m.get .lcl).toNat < (m.get .sp).toNat
    else (m.get .lcl).toNat + 2 ≤ (m.get .sp).toNat
  | .ifGoto _ | .ret => (m.get .lcl).toNat < (m.get .sp).toNat
  | .call _ arguments => (m.get .lcl).toNat + arguments.toNat ≤ (m.get .sp).toNat
  | .push .. | .label _ | .goto _ | .function .. => True

instance (vm : StackMachine) (m : Memory) : (c : Placed) → Decidable (Disciplined vm c m)
  | ⟨file, _, .pop segment index⟩ =>
    -- Instance search would go through all words here.
    @instDecidableAnd _ _ (Nat.decLt _ _)
      (Option.decidableForallMem (vm.cell? file m segment index.toNat))
  | ⟨_, _, .operate operator⟩ =>
    inferInstanceAs (Decidable (if operator = .neg ∨ operator = .not then
      (m.get .lcl).toNat < (m.get .sp).toNat else (m.get .lcl).toNat + 2 ≤ (m.get .sp).toNat))
  | ⟨_, _, .ifGoto _⟩ | ⟨_, _, .ret⟩ =>
    inferInstanceAs (Decidable ((m.get .lcl).toNat < (m.get .sp).toNat))
  | ⟨_, _, .call _ arguments⟩ =>
    inferInstanceAs (Decidable ((m.get .lcl).toNat + arguments.toNat ≤ (m.get .sp).toNat))
  | ⟨_, _, .push ..⟩ | ⟨_, _, .label _⟩ | ⟨_, _, .goto _⟩ | ⟨_, _, .function ..⟩ =>
    inferInstanceAs (Decidable True)

section Memory

variable {vm : StackMachine} {m m' : Memory} {frames : List Memory.Frame} {file owner : String}
  {i j : Nat}

/-- A pop to where it may go leaves the chain alone. -/
theorem harmless_of_mayPopInto (h : m.Intact frames) {segment : Segment} {index : UInt16}
    (hfits : (Command.pop segment index).Fits) {a : Word}
    (ha : vm.cell? file m segment index.toNat = some a) (hmay : MayPopInto m a segment) :
    m.Harmless a := by
  have hbounds := h.bounds
  have hindex : (index.toNat : Int) ≤ segment.greatest := hfits.2
  cases segment with
  | constant => exact absurd ha (by simp [cell?])
  | locals | arguments | this | that =>
    rcases hmay with hmay | hmay
    · exact .inr (.inl ⟨hmay.1, by omega⟩)
    · exact .inr (.inr hmay)
  | pointer | temp =>
    -- Their words are fixed, below the stack and above `ARG`.
    obtain rfl := Option.some.inj ha
    simp only [Segment.greatest] at hindex
    rw [BitVec.ofInt_natCast]
    exact .inl (by bv_omega)
  | statics => exact .inl ⟨by have := hmay.1; omega, by have := hmay.2; omega⟩

/-- Operators keep the chain of frames. -/
theorem intact_operate (h : m.Intact frames) {operator : Operator}
    (hpop : if operator = .neg ∨ operator = .not then (m.get .lcl).toNat < (m.get .sp).toNat
      else (m.get .lcl).toNat + 2 ≤ (m.get .sp).toNat) :
    (operate m operator).Intact frames := by
  cases operator with
  | neg | not =>
    rw [if_pos (by decide)] at hpop
    simp only [operate]
    exact h.mapTop hpop _
  | add | sub | and | or | eq | gt | lt =>
    rw [if_neg (by decide)] at hpop
    simp only [operate]
    exact h.mapTops hpop _

/-- **A disciplined command keeps the chain of frames**, one case for each command. -/
theorem intact_execute (h : m.Intact frames) {c : Placed} (hfits : c.command.Fits)
    (hdisciplined : Disciplined vm c m) (hsp : (m.get .sp).toNat ≤ 2047)
    (hlocals : ∀ name locals, c.command = .function name locals → locals.toNat < 32768)
    (hstep : vm.execute c ⟨i, m⟩ = some ⟨j, m'⟩)
    (hpending : framesAfter (m.callerFrame (vm.place (i + 1))) frames c.command ≠ []) :
    m'.Intact (framesAfter (m.callerFrame (vm.place (i + 1))) frames c.command) := by
  obtain ⟨file, owner, command⟩ := c
  cases command with
  | push segment index =>
    obtain ⟨v, -, heq⟩ := Option.map_eq_some_iff.1 hstep
    obtain ⟨rfl, rfl⟩ := State.mk.inj heq
    exact h.push (by omega) v
  | pop segment index =>
    obtain ⟨a, ha, heq⟩ := Option.map_eq_some_iff.1 hstep
    obtain ⟨rfl, rfl⟩ := State.mk.inj heq
    obtain ⟨hpop, hmay⟩ := hdisciplined
    exact h.popInto hpop (harmless_of_mayPopInto h hfits ha (hmay a ha))
  | operate operator =>
    obtain ⟨rfl, rfl⟩ := State.mk.inj (Option.some.inj hstep)
    exact intact_operate h hdisciplined
  | label name =>
    obtain ⟨rfl, rfl⟩ := State.mk.inj (Option.some.inj hstep)
    exact h
  | goto name =>
    obtain ⟨_, _, heq⟩ := Option.map_eq_some_iff.1 hstep
    obtain ⟨rfl, rfl⟩ := State.mk.inj heq
    exact h
  | ifGoto name =>
    have hm : m' = m.drop := by
      simp only [execute] at hstep
      split at hstep
      · exact (State.mk.inj (Option.some.inj hstep)).2.symm
      · obtain ⟨_, _, heq⟩ := Option.map_eq_some_iff.1 hstep
        exact (State.mk.inj heq).2.symm
    rw [hm]
    exact h.drop hdisciplined
  | function name locals =>
    obtain ⟨rfl, rfl⟩ := State.mk.inj (Option.some.inj hstep)
    have hlt := hlocals name locals rfl
    exact h.pushZeros locals.toNat (by omega)
  | call name arguments =>
    obtain ⟨_, _, heq⟩ := Option.map_eq_some_iff.1 hstep
    obtain ⟨rfl, rfl⟩ := State.mk.inj heq
    have hargs : (m.get .lcl).toNat + arguments.toNat ≤ (m.get .sp).toNat := hdisciplined
    have hlt := arguments.toNat_lt
    exact h.enter _ (by rwa [BitVec.toNat_ofNat, Nat.mod_eq_of_lt hlt]) (by omega)
  | ret =>
    obtain ⟨_, _, heq⟩ := Option.map_eq_some_iff.1 hstep
    obtain ⟨rfl, rfl⟩ := State.mk.inj heq
    obtain ⟨f, rest, rfl⟩ := List.exists_cons_of_ne_nil h.pending
    exact h.leave rfl hpending hdisciplined

/-- A command that keeps to its part of the stack reads no scratch register when its code uses
    them. -/
theorem not_scratch_of_disciplined (hintact : m.Intact frames) {c : Placed}
    (hsp : 256 ≤ (m.get .sp).toNat) (hd : Disciplined vm c m)
    (huses : usesScratch c.command) : ∀ a ∈ vm.addressesRead c m, ¬ Memory.Scratch a := by
  have hbounds := hintact.bounds
  obtain ⟨file, owner, command⟩ := c
  cases command with
  | pop segment index =>
    intro a ha
    obtain rfl := List.mem_singleton.1 ha
    exact Memory.not_scratch_of_le (by bv_omega)
  | ret => exact vm.not_scratch_of_mem_addressesRead_ret rfl (by omega) hbounds.2 hd
  | push | operate | label | goto | ifGoto | function | call => cases huses

end Memory

/-! ### The calls that have not returned -/

/-- The state of the machine a number of steps after it is switched on. -/
def stateAfter (p : Program) (steps : Nat) : Cpu :=
  (Cpu.start.run p.rom steps).1

/-- The addresses that code loads for variables. -/
def loadedStatics (p : Program) (file : String) (index : Nat) : Option Word :=
  some (p.operand (.symbol (.static file (UInt16.ofNat index))))

theorem loadsStatics_loadedStatics (p : Program) : LoadsStatics p (loadedStatics p) := by
  intro file index v hv
  rw [loadedStatics, UInt16.ofNat_toNat] at hv
  exact Option.some.inj hv

namespace Compilation

variable (k : Compilation)

/-- The code of a command starts at an address, or the program ends there. -/
def IsBoundary (pc : Nat) : Prop :=
  ∃ i ≤ k.commands.length, pc = k.address i

instance (pc : Nat) : Decidable (k.IsBoundary pc) :=
  inferInstanceAs (Decidable (∃ i, i ≤ k.commands.length ∧ pc = k.address i))

/-- The command whose code starts at an address, with its index. Commands without code are passed
    over. -/
def commandAt? (pc : Nat) : Option (Placed × Nat) :=
  k.commands.zipIdx.find? fun (_, i) => k.address i = pc ∧ pc < k.address (i + 1)

/-- The frames of pending calls after the next step, which changes them where it is the first of a
    call or of a return. The call of the entry function counts. -/
def pendingAfter (cpu : Cpu) (pending : List Memory.Frame) : List Memory.Frame :=
  match k.commandAt? cpu.pc with
  | some (c, i) =>
    framesAfter (cpu.ram.callerFrame (BitVec.ofNat 16 (k.address (i + 1)))) pending c.command
  | none =>
    if k.bootstrap ∧ cpu.pc = instructionCount stackSetup then
      cpu.ram.callerFrame (BitVec.ofNat 16 (k.address 0)) :: pending
    else pending

/-- The frames of the calls that have not returned a number of steps after the machine is switched
    on, the last call first. -/
def pendingAt (p : Program) : Nat → List Memory.Frame
  | 0 => []
  | steps + 1 => k.pendingAfter (stateAfter p steps) (pendingAt p steps)

/-- The place before the command with an index is right after a call, be it that of the entry
    function. -/
def AfterCall (i : Nat) : Prop :=
  i = 0 ∨ ∃ j c name arguments, i = j + 1 ∧ k.commands[j]? = some c ∧
    c.command = .call name arguments

variable {k} {pc i : Nat} {c : Placed}

theorem AfterCall.le (h : k.AfterCall i) : i ≤ k.commands.length := by
  rcases h with rfl | ⟨j, c, _, _, rfl, hc, -⟩
  · exact Nat.zero_le _
  · exact (List.getElem?_eq_some_iff.1 hc).1

theorem commandAt?_eq_some_iff :
    k.commandAt? pc = some (c, i) ↔
      k.commands[i]? = some c ∧ k.address i = pc ∧ pc < k.address (i + 1) := by
  have hfound : ∀ {c i}, k.commandAt? pc = some (c, i) →
      k.commands[i]? = some c ∧ k.address i = pc ∧ pc < k.address (i + 1) := by
    intro c i h
    have hmem := List.mem_of_find?_eq_some h
    have hcode := List.find?_some h
    exact ⟨List.mem_zipIdx_iff_getElem?.1 hmem, by simpa using hcode⟩
  refine ⟨hfound, ?_⟩
  rintro ⟨hc, hpc, hlt⟩
  have hsome : (k.commandAt? pc).isSome := by
    rw [commandAt?, List.find?_isSome]
    exact ⟨(c, i), List.mem_zipIdx_iff_getElem?.2 hc, by simp [hpc, hlt]⟩
  obtain ⟨⟨c', i'⟩, hfind⟩ := Option.isSome_iff_exists.1 hsome
  obtain ⟨hc', hpc', hlt'⟩ := hfound hfind
  -- Two commands with code do not start at one address.
  obtain rfl : i' = i := by
    rcases Nat.lt_trichotomy i' i with hlt'' | heq | hgt
    · have hmono : k.address (i' + 1) ≤ k.address i := k.address_mono hlt''
      omega
    · exact heq
    · have hmono : k.address (i + 1) ≤ k.address i' := k.address_mono hgt
      omega
  rw [hfind, Option.some.inj (hc'.symm.trans hc)]

theorem isBoundary_of_commandAt? (h : k.commandAt? pc = some (c, i)) : k.IsBoundary pc := by
  obtain ⟨hc, hpc, -⟩ := commandAt?_eq_some_iff.1 h
  exact ⟨i, (List.getElem?_eq_some_iff.1 hc).1.le, hpc.symm⟩

/-- Where no command with code starts, the program ends. -/
theorem eq_end_of_commandAt?_eq_none (h : k.IsBoundary pc) (hnone : k.commandAt? pc = none) :
    pc = k.address k.commands.length := by
  obtain ⟨i, hi, rfl⟩ := h
  -- All commands from there on are without code.
  have hempty : ∀ d, i + d ≤ k.commands.length → k.address (i + d) = k.address i := by
    intro d
    induction d with
    | zero => exact fun _ => rfl
    | succ d ih =>
      intro hd
      have hlt : i + d < k.commands.length := by omega
      have hstart := ih (by omega)
      have hmono := k.address_mono (Nat.le_add_right (i + d) 1)
      by_contra hne
      have hcode : k.commandAt? (k.address i) = some (k.commands[i + d], i + d) :=
        commandAt?_eq_some_iff.2 ⟨List.getElem?_eq_getElem hlt, hstart,
          by rw [Nat.add_assoc] at hmono ⊢; omega⟩
      rw [hcode] at hnone
      cases hnone
  have hend := hempty (k.commands.length - i) (by omega)
  rw [Nat.add_sub_cancel' hi] at hend
  exact hend.symm

/-- The steps that lead neither to a command nor to the call of the entry function. -/
def Quiet (k : Compilation) (pc : Nat) : Prop :=
  ¬ k.IsBoundary pc ∧ pc ≠ instructionCount stackSetup

theorem Quiet.pendingAfter {cpu : Cpu} (h : k.Quiet cpu.pc) (pending : List Memory.Frame) :
    k.pendingAfter cpu pending = pending := by
  have hnone : k.commandAt? cpu.pc = none := by
    rw [Option.eq_none_iff_forall_ne_some]
    exact fun ⟨c, i⟩ hc => h.1 (isBoundary_of_commandAt? hc)
  rw [Compilation.pendingAfter, hnone]
  exact if_neg fun hentry => h.2 hentry.2

/-- The code of a command has no boundary inside. -/
theorem quiet_of_between (hentry : instructionCount stackSetup < k.address 0)
    (hlo : k.address i < pc) (hhi : pc < k.address (i + 1)) : k.Quiet pc := by
  have hzero : k.address 0 ≤ k.address i := k.address_mono (Nat.zero_le i)
  refine ⟨?_, by omega⟩
  rintro ⟨j, -, rfl⟩
  rcases Nat.lt_or_ge i j with hlt | hge
  · have hmono : k.address (i + 1) ≤ k.address j := k.address_mono hlt
    omega
  · have hmono : k.address j ≤ k.address i := k.address_mono hge
    omega

theorem not_isBoundary_of_lt (h : pc < k.address 0) : ¬ k.IsBoundary pc := by
  rintro ⟨j, -, rfl⟩
  have hmono : k.address 0 ≤ k.address j := k.address_mono (Nat.zero_le j)
  omega

/-- Along a stretch of a run that is quiet but for its first step, only that step counts. -/
theorem pendingAt_of_leads {p : Program} {lo hi t : Nat} {cpu cpu' : Cpu}
    (hrun : Cpu.start.run p.rom t = (cpu, none)) (hleads : cpu.Leads p.rom lo hi cpu')
    (hquiet : ∀ pc, lo < pc → pc < hi → k.Quiet pc) :
    ∃ n, 0 < n ∧ Cpu.start.run p.rom (t + n) = (cpu', none) ∧
      k.pendingAt p (t + n) = k.pendingAfter cpu (k.pendingAt p t) ∧
      ∀ x, 0 < x → x < n → lo < (stateAfter p (t + x)).pc ∧ (stateAfter p (t + x)).pc < hi := by
  obtain ⟨n, hn, hend, hinside⟩ := hleads
  have hstate : ∀ x, stateAfter p (t + x) = (cpu.run p.rom x).1 := fun x => by
    rw [stateAfter, Cpu.run_add_of_ok hrun]
  refine ⟨n, hn, by rw [Cpu.run_add_of_ok hrun, hend], ?_, ?_⟩
  · -- The induction is on how far the stretch has been gone.
    have hpending : ∀ x, x < n →
        k.pendingAt p (t + (x + 1)) = k.pendingAfter cpu (k.pendingAt p t) := by
      intro x hx
      induction x with
      | zero =>
        have hfirst : stateAfter p t = cpu := hstate 0
        rw [Nat.zero_add, pendingAt, hfirst]
      | succ x ih =>
        obtain ⟨hlo, hhi⟩ := hinside (x + 1) (by omega) hx
        rw [← Nat.add_assoc, pendingAt, ih (by omega), hstate (x + 1)]
        exact (hquiet _ hlo hhi).pendingAfter _
    have hlast := hpending (n - 1) (by omega)
    rwa [Nat.sub_add_cancel hn] at hlast
  · intro x hpos hx
    rw [hstate x]
    exact hinside x hpos hx

/-! ### From one command to the next -/

/-- The machine is between two commands, and the frames of pending calls are in memory. -/
structure Sound (k : Compilation) (p : Program) (t : Nat) (cpu : Cpu) : Prop where
  /-- The machine gets there without a fault. -/
  run : Cpu.start.run p.rom t = (cpu, none)
  /-- It is between two commands. -/
  boundary : k.IsBoundary cpu.pc
  /-- The frames are in memory, if there are any. -/
  intact : k.pendingAt p t ≠ [] → cpu.ram.Intact (k.pendingAt p t)
  /-- They return to places right after calls. -/
  places : ∀ f ∈ k.pendingAt p t, ∃ i, k.AfterCall i ∧ f.back = BitVec.ofNat 16 (k.address i)

namespace Loads

variable {p : Program} {t : Nat} {cpu : Cpu} (h : k.Loads p)

include h

/-- The machine gets to the entry function, and that is the first boundary it comes to. -/
theorem sound_start (hbootstrap : k.bootstrap = true) (hresolved : Resolved k.commands) :
    ∃ t cpu, k.Sound p t cpu ∧ ∀ x < t, ¬ k.IsBoundary (stateAfter p x).pc := by
  obtain ⟨j, hj⟩ := Option.isSome_iff_exists.1 hresolved.entry
  obtain ⟨e, locals, he, hfunction⟩ := functionIndex?_some hj
  have hentry := h.entryCall_lt hbootstrap
  have hbefore : ∀ {pc}, pc < k.address 0 → pc ≠ instructionCount stackSetup → k.Quiet pc :=
    fun hlt hne => ⟨not_isBoundary_of_lt hlt, hne⟩
  -- First the stack is set up, and no call is pending.
  obtain ⟨n₁, -, hrun₁, hpending₁, hinside₁⟩ :=
    pendingAt_of_leads (Cpu.run_zero p.rom .start) (h.leads_setup hbootstrap)
      fun pc _ hhi => hbefore (by omega) (by omega)
  have hzero : k.Quiet Cpu.start.pc := hbefore (Nat.zero_lt_of_lt hentry) (by decide)
  rw [hzero.pendingAfter] at hpending₁
  simp only [Nat.zero_add] at hrun₁ hpending₁ hinside₁
  -- Then the entry function is called.
  obtain ⟨a, d, hleads⟩ := h.leads_entry hbootstrap hj
  obtain ⟨n₂, -, hrun₂, hpending₂, hinside₂⟩ :=
    pendingAt_of_leads hrun₁ hleads fun pc hlo hhi => hbefore hhi (by omega)
  have hcall : k.pendingAt p (n₁ + n₂) =
      [atEntryCall.ram.callerFrame (BitVec.ofNat 16 (k.address 0))] := by
    have hnone : k.commandAt? atEntryCall.pc = none := by
      rw [Option.eq_none_iff_forall_ne_some]
      exact fun ⟨c, i⟩ hc => not_isBoundary_of_lt hentry (isBoundary_of_commandAt? hc)
    rw [hpending₂, hpending₁, pendingAfter, hnone]
    exact if_pos ⟨hbootstrap, rfl⟩
  refine ⟨_, _, ⟨hrun₂, ⟨j, (List.getElem?_eq_some_iff.1 he).1.le, rfl⟩, ?_, ?_⟩, ?_⟩
  · intro _
    rw [hcall]
    exact Memory.intact_enter (.inl rfl) _ (by decide) (by decide)
  · rw [hcall]
    exact fun f hf => ⟨0, .inl rfl, by rw [List.mem_singleton.1 hf]; rfl⟩
  · -- All along, the counter stays below the code of the first command.
    intro x hx
    apply not_isBoundary_of_lt
    rcases Nat.lt_trichotomy x n₁ with hlt | rfl | hgt
    · rcases Nat.eq_zero_or_pos x with rfl | hpos
      · exact Nat.zero_lt_of_lt hentry
      · exact (hinside₁ x hpos hlt).2.trans hentry
    · rw [stateAfter, hrun₁]
      exact hentry
    · obtain ⟨y, rfl⟩ : ∃ y, x = n₁ + y := ⟨x - n₁, by omega⟩
      exact (hinside₂ y (by omega) (by omega)).2

/-- Where everything is declared and the frames are in place, every command can be executed. -/
theorem exists_execute (hresolved : Resolved k.commands) (hc : k.commands[i]? = some c) {m : Memory}
    {frames : List Memory.Frame} (hintact : m.Intact frames)
    (hplaces : ∀ f ∈ frames, ∃ i, k.AfterCall i ∧ f.back = BitVec.ofNat 16 (k.address i)) :
    ∃ s, (k.machine (loadedStatics p)).execute c ⟨i, m⟩ = some s := by
  rw [← Option.ne_none_iff_exists']
  intro hnone
  have hfits : ∀ c ∈ k.commands, c.command.Fits := fun c hc =>
    let ⟨_, hi⟩ := List.getElem?_of_mem hc
    h.fits hi
  have hstep : (k.machine (loadedStatics p)).step ⟨i, m⟩ = none := by
    simpa [StackMachine.step, machine, hc] using hnone
  have hdeclared : Resolved (k.machine (loadedStatics p)).commands := hresolved
  -- Of the three things that stop a program, there is a command, returns have a place to go to,
  -- and every variable has an address that code loads.
  rcases step_eq_none hdeclared hfits hstep with hend | ⟨c', hc', ⟨-, hplace⟩ | hlacks⟩
  · rw [show k.commands[i]? = none from hend] at hc
    cases hc
  · obtain ⟨f, rest, rfl⟩ := List.exists_cons_of_ne_nil hintact.pending
    obtain ⟨i', hi', hback⟩ := hplaces f List.mem_cons_self
    refine (k.machine (loadedStatics p)).placeIndex?_place_ne_none hi'.le ?_
    rw [show (k.machine (loadedStatics p)).place i' = f.back from hback.symm,
      ← hintact.returnAddress rfl]
    exact hplace
  · unfold LacksStatic at hlacks
    split at hlacks <;> cases hlacks

/-- **From a command to the next.**  Where a disciplined command starts in a sound state, the
    machine does what the command means, and meets no other command on the way. -/
theorem next_command (hbootstrap : k.bootstrap = true) (hresolved : Resolved k.commands)
    (hs : k.Sound p t cpu) (hpending : k.pendingAt p t ≠ []) (hlo : 256 ≤ (cpu.ram.get .sp).toNat)
    (hhi : (cpu.ram.get .sp).toNat ≤ 2047) (hat : k.commandAt? cpu.pc = some (c, i))
    (hd : Disciplined (k.machine (loadedStatics p)) c cpu.ram) :
    ∃ n j m cpu', 0 < n ∧ Cpu.start.run p.rom (t + n) = (cpu', none) ∧ cpu'.pc = k.address j ∧
      cpu'.ram.Agree m ∧
      (k.machine (loadedStatics p)).execute c ⟨i, cpu.ram⟩ = some ⟨j, m⟩ ∧
      k.pendingAt p (t + n) =
        framesAfter (cpu.ram.callerFrame (BitVec.ofNat 16 (k.address (i + 1)))) (k.pendingAt p t)
          c.command ∧
      ∀ x, 0 < x → x < n → ¬ k.IsBoundary (stateAfter p (t + x)).pc := by
  have hentry := h.entryCall_lt hbootstrap
  have hintact := hs.intact hpending
  obtain ⟨hc, hpc, hlt⟩ := commandAt?_eq_some_iff.1 hat
  -- Everything is declared, and a return has a place to go to, so there is a next command.
  obtain ⟨⟨j, m⟩, hstep⟩ := h.exists_execute hresolved hc hintact hs.places
  have hargs : ∀ name arguments, c.command = .call name arguments →
      arguments.toNat + frameSize < 65536 := by
    intro name arguments hcall
    rw [Disciplined, hcall] at hd
    rw [frameSize]
    omega
  have hpasses := h.simulates (loadsStatics_loadedStatics p) hc hpc.symm
    (not_scratch_of_disciplined hintact hlo hd) hargs hstep
  cases hpasses with
  | empty hsize => omega
  | @block _ _ m' a d _ hleads hagree =>
    obtain ⟨n, hn, hrun, hpend, hinside⟩ := pendingAt_of_leads hs.run hleads
      fun pc hlo hhi => quiet_of_between hentry hlo hhi
    refine ⟨n, j, m, _, hn, hrun, rfl, hagree, hstep, ?_, ?_⟩
    · rw [hpend, pendingAfter, hat]
    · intro x hpos hx
      obtain ⟨hlo, hhi⟩ := hinside x hpos hx
      exact (quiet_of_between hentry hlo hhi).1

/-- The code of a function pushes its local variables one by one, so there are not too many. -/
theorem locals_lt (hc : k.commands[i]? = some c) {name : String} {locals : UInt16}
    (hfunction : c.command = .function name locals) : locals.toNat < 32768 := by
  have hnext := address_succ hc
  rw [hfunction, Emitter.body, instructionCount_functionCode] at hnext
  have hlt := h.address_lt (i + 1)
  omega

/-- **The next boundary is sound, too.** -/
theorem next_boundary (hbootstrap : k.bootstrap = true) (hresolved : Resolved k.commands)
    (hs : k.Sound p t cpu) (hpending : k.pendingAt p t ≠ [])
    (hlo : 256 ≤ (cpu.ram.get .sp).toNat) (hhi : (cpu.ram.get .sp).toNat ≤ 2047)
    (hd : ∀ c i, k.commandAt? cpu.pc = some (c, i) →
      Disciplined (k.machine (loadedStatics p)) c cpu.ram) :
    ∃ n cpu', 0 < n ∧ k.Sound p (t + n) cpu' ∧
      ∀ x, 0 < x → x < n → ¬ k.IsBoundary (stateAfter p (t + x)).pc := by
  have hentry := h.entryCall_lt hbootstrap
  cases hat : k.commandAt? cpu.pc with
  | none =>
    -- At the end of the program the machine stays where it is.
    have hend := eq_end_of_commandAt?_eq_none hs.boundary hat
    have hstay : cpu.run p.rom 1 = (cpu, none) := by
      simp [Cpu.run, hend, h.rom_end]
    have hfirst : k.address 0 ≤ cpu.pc := hend ▸ k.address_mono (Nat.zero_le _)
    have hsame : k.pendingAt p (t + 1) = k.pendingAt p t := by
      rw [pendingAt, stateAfter, hs.run, pendingAfter, hat]
      exact if_neg fun hcall => Nat.ne_of_gt (hentry.trans_le hfirst) hcall.2
    refine ⟨1, cpu, by omega, ⟨?_, hs.boundary, ?_, ?_⟩, fun x hpos hx => by omega⟩
    · rw [Cpu.run_add_of_ok hs.run, hstay]
    · rw [hsame]
      exact hs.intact
    · rw [hsame]
      exact hs.places
  | some at' =>
    obtain ⟨c, i⟩ := at'
    have hc := (commandAt?_eq_some_iff.1 hat).1
    have hi : i < k.commands.length := (List.getElem?_eq_some_iff.1 hc).1
    obtain ⟨n, j, m, cpu', hn, hrun, hpc, hagree, hstep, hframes, hinside⟩ :=
      h.next_command hbootstrap hresolved hs hpending hlo hhi hat (hd c i hat)
    refine ⟨n, cpu', hn, ⟨hrun, ⟨j, execute_index_le hstep hi, hpc⟩, ?_, ?_⟩, hinside⟩
    · -- The machine's memory has the chain because that of the virtual machine has it.
      intro hne
      rw [hframes] at hne ⊢
      exact (intact_execute (hs.intact hpending) (h.fits hc) (hd c i hat) hhi
        (fun name locals => h.locals_lt hc) hstep hne).agree hagree
    · rw [hframes]
      intro f hf
      rcases mem_framesAfter hf with ⟨rfl, name, arguments, hcall⟩ | hmem
      · exact ⟨i + 1, .inr ⟨i, c, name, arguments, rfl, hc, hcall⟩, rfl⟩
      · exact hs.places f hmem

end Loads

/-! ### Whole runs -/

/-- The run up to a point keeps the stack in its place, and every command that starts before that
    point is disciplined. -/
structure DisciplinedRun (k : Compilation) (p : Program) (T : Nat) : Prop where
  /-- Between commands, the stack pointer is in the stack. -/
  stack : ∀ t ≤ T, k.IsBoundary (stateAfter p t).pc →
    256 ≤ ((stateAfter p t).ram.get .sp).toNat ∧ ((stateAfter p t).ram.get .sp).toNat ≤ 2047
  /-- Every command keeps to its part of the stack. -/
  commands : ∀ t < T, ∀ at' ∈ k.commandAt? (stateAfter p t).pc,
    Disciplined (k.machine (loadedStatics p)) at'.1 (stateAfter p t).ram

/-- **Every boundary of a disciplined run is sound.**  The induction is on the number of steps that
    are left from a sound boundary; the next boundary takes up some of them. -/
theorem Loads.sound_of_isBoundary {p : Program} (h : k.Loads p) (hbootstrap : k.bootstrap = true)
    (hresolved : Resolved k.commands) {T : Nat} (hrun : k.DisciplinedRun p T)
    (hpending : ∀ t ≤ T, k.IsBoundary (stateAfter p t).pc → k.pendingAt p t ≠ [])
    (hT : k.IsBoundary (stateAfter p T).pc) : k.Sound p T (stateAfter p T) := by
  have hall : ∀ d t, T = t + d → k.Sound p t (stateAfter p t) → k.Sound p T (stateAfter p T) := by
    intro d
    induction d using Nat.strong_induction_on with
    | _ d ih =>
      intro t ht hs
      rcases Nat.eq_zero_or_pos d with rfl | hpos
      · rwa [ht]
      · obtain ⟨hlo, hhi⟩ := hrun.stack t (by omega) hs.boundary
        obtain ⟨n, cpu, hn, hnext, hinside⟩ := h.next_boundary hbootstrap hresolved hs
          (hpending t (by omega) hs.boundary) hlo hhi fun c i hat =>
            hrun.commands t (by omega) (c, i) hat
        -- The next boundary is not past this one, since there is none in between.
        have hle : n ≤ d := by
          by_contra hlt
          exact hinside d hpos (by omega) (ht ▸ hT)
        have hcpu : stateAfter p (t + n) = cpu := by rw [stateAfter, hnext.run]
        exact ih (d - n) (by omega) (t + n) (by omega) (hcpu ▸ hnext)
  obtain ⟨t₀, cpu, hstart, hbefore⟩ := h.sound_start hbootstrap hresolved
  have hle : t₀ ≤ T := by
    by_contra hlt
    exact hbefore T (by omega) hT
  have hcpu : stateAfter p t₀ = cpu := by rw [stateAfter, hstart.run]
  exact hall (T - t₀) t₀ (by omega) (hcpu ▸ hstart)

end Compilation

/-- **The call stack stays intact.**  Take a point between two commands of a run that is disciplined
    up to there, with a call pending all the way since the entry function was called.  Then a walk
    along the saved frames, from the local variables on, meets the frames of exactly the calls that
    have not returned, the last one first.  And if a return comes next that finds a result on the
    stack, the machine gets to the instruction right after the last of these calls, with that
    caller's registers, and that call is no longer pending. -/
theorem call_stack_integrity {k : Compilation} {p : Program} (h : k.Loads p)
    (hbootstrap : k.bootstrap = true) (hresolved : Resolved k.commands) {T : Nat}
    (hrun : k.DisciplinedRun p T)
    (hpending : ∀ t ≤ T, k.IsBoundary (stateAfter p t).pc → k.pendingAt p t ≠ [])
    (hT : k.IsBoundary (stateAfter p T).pc) :
    (stateAfter p T).ram.savedFrames (k.pendingAt p T).length ((stateAfter p T).ram.get .lcl) =
        k.pendingAt p T ∧
      ∀ c i, k.commandAt? (stateAfter p T).pc = some (c, i) → c.command = .ret →
        ((stateAfter p T).ram.get .lcl).toNat < ((stateAfter p T).ram.get .sp).toNat →
        ∃ f rest, k.pendingAt p T = f :: rest ∧ ∃ n cpu, 0 < n ∧
          Cpu.start.run p.rom (T + n) = (cpu, none) ∧
          (∃ j, k.AfterCall j ∧ f.back = BitVec.ofNat 16 (k.address j) ∧ cpu.pc = k.address j) ∧
          cpu.ram.get .lcl = f.lcl ∧ cpu.ram.get .arg = f.arg ∧ cpu.ram.get .this = f.this ∧
          cpu.ram.get .that = f.that ∧ k.pendingAt p (T + n) = rest ∧
          ∀ x, 0 < x → x < n → ¬ k.IsBoundary (stateAfter p (T + x)).pc := by
  have hs := h.sound_of_isBoundary hbootstrap hresolved hrun hpending hT
  have hne := hpending T le_rfl hT
  have hintact := hs.intact hne
  refine ⟨hintact.savedFrames, ?_⟩
  intro c i hat hret hsp
  obtain ⟨hlo, hhi⟩ := hrun.stack T le_rfl hT
  obtain ⟨f, rest, hframes⟩ := List.exists_cons_of_ne_nil hne
  have hd : Disciplined (k.machine (loadedStatics p)) c (stateAfter p T).ram := by
    rw [Disciplined, hret]
    exact hsp
  obtain ⟨n, j, m, cpu, hn, hrun', hpc, hagree, hstep, hpend, hinside⟩ :=
    h.next_command hbootstrap hresolved hs hne hlo hhi hat hd
  obtain ⟨file, owner, command⟩ := c
  obtain rfl : command = .ret := hret
  obtain ⟨j, hj, heq⟩ := Option.map_eq_some_iff.1 hstep
  obtain ⟨rfl, rfl⟩ := State.mk.inj heq
  -- The frame returns to the place where the call left, and has its registers.
  obtain ⟨j', hafter, hback⟩ := hs.places f (by rw [hframes]; exact List.mem_cons_self)
  rw [hintact.returnAddress hframes] at hj
  have hplace : k.address j = k.address j' := by
    rw [← h.toNat_of_placeIndex? hj, hback, BitVec.toNat_ofNat, Nat.mod_eq_of_lt (h.address_lt j')]
  obtain ⟨-, hlcl, harg, hthis, hthat⟩ :=
    Memory.Frame.mk.inj ((hagree.callerFrame f.back).trans (hintact.callerFrame_leave hframes hsp))
  refine ⟨f, rest, hframes, n, cpu, hn, hrun', ⟨j', hafter, hback, hpc.trans hplace⟩, hlcl, harg,
    hthis, hthat, ?_, hinside⟩
  rw [hpend, hframes]
  rfl

/-- Up to the first return of the example, every boundary and every command is as it should be; and
    what there is at that return. -/
theorem doubling_checked :
    (∀ t ≤ 160, doubling.IsBoundary (stateAfter doublingProgram t).pc →
      256 ≤ ((stateAfter doublingProgram t).ram.get .sp).toNat ∧
        ((stateAfter doublingProgram t).ram.get .sp).toNat ≤ 2047 ∧
        doubling.pendingAt doublingProgram t ≠ [] ∧
        ∀ at' ∈ doubling.commandAt? (stateAfter doublingProgram t).pc,
          Disciplined (doubling.machine (loadedStatics doublingProgram)) at'.1
            (stateAfter doublingProgram t).ram) ∧
      (doubling.commandAt? (stateAfter doublingProgram 160).pc).map (·.1.command) = some .ret ∧
      (stateAfter doublingProgram 160).ram.get .lcl = 267 ∧
      (stateAfter doublingProgram 160).ram.get .sp = 269 ∧
      doubling.pendingAt doublingProgram 160 = [⟨105, 261, 256, 0, 0⟩, ⟨51, 0, 0, 0, 0⟩] := by
  decide +kernel

/-- Two calls are pending at that return: that of the function, and that of the entry function. -/
theorem doubling_stack_integrity :
    doubling.DisciplinedRun doublingProgram 160 ∧
      (stateAfter doublingProgram 160).ram.savedFrames 2 267 =
        [⟨105, 261, 256, 0, 0⟩, ⟨51, 0, 0, 0, 0⟩] ∧
      ∃ n cpu, Cpu.start.run doublingProgram.rom (160 + n) = (cpu, none) ∧ cpu.pc = 105 ∧
        cpu.ram.get .lcl = 261 ∧ cpu.ram.get .arg = 256 := by
  obtain ⟨hchecked, hat, hlcl, hsp, hframes⟩ := doubling_checked
  obtain ⟨⟨c, i⟩, hat, hret⟩ := Option.map_eq_some_iff.1 hat
  have hrun : doubling.DisciplinedRun doublingProgram 160 := by
    refine ⟨fun t ht hb => ?_, fun t ht ⟨c, i⟩ hat => ?_⟩
    · obtain ⟨hlo, hhi, -⟩ := hchecked t ht hb
      exact ⟨hlo, hhi⟩
    · exact (hchecked t ht.le (Compilation.isBoundary_of_commandAt? hat)).2.2.2 _ hat
  obtain ⟨hwalk, hreturn⟩ := call_stack_integrity doubling_loads rfl doubling_resolved hrun
    (fun t ht hb => (hchecked t ht hb).2.2.1) (Compilation.isBoundary_of_commandAt? hat)
  obtain ⟨f, rest, hpending, n, cpu, -, hend, ⟨j, -, hback, hpc⟩, hlcl', harg', -⟩ :=
    hreturn c i hat hret (by rw [hlcl, hsp]; decide)
  rw [hframes, hlcl] at hwalk
  rw [hframes] at hpending
  obtain ⟨rfl, -⟩ := List.cons.inj hpending
  have hplace : (BitVec.ofNat 16 (doubling.address j)).toNat = doubling.address j :=
    Nat.mod_eq_of_lt (doubling_loads.address_lt j)
  refine ⟨hrun, hwalk, n, cpu, hend, ?_, hlcl', harg'⟩
  rw [hpc, ← hplace, ← hback]
  rfl

end HackVM.Codegen
