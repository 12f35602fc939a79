import HackVM.Machine.Cpu
import HackVM.Proofs.Codegen.Session

namespace HackVM

open Asm Machine

/-!
# Compiled code does not fault

The machine takes an instruction apart when it reads its text, and faults on what it does not know
when the instruction runs.  The names in compiled code may hold anything, also marks, comments and
newlines, so it has to be said that no name turns a label or an address into an instruction of
another kind.

* `Known`, `Statement.Supported` and `Instruction.Supported` — nothing in it makes the machine
  fault;
* `supported_statement?` and `supported_of_assembled` — what the assembler reads in compiled code,
  and makes of it, is supported;
* `Cpu.execute_of_supported` and `Cpu.run_of_supported` — one step, and runs from every state;
* `compiled_code_never_faults` — hence no run of compiled code faults.
-/

namespace Machine

/-! ### What the machine knows -/

/-- The computation exists and, if there is a condition for a jump, that exists as well. -/
def Known (comp : Except Fault Computation) (jump : Option (Except Fault Jump)) : Prop :=
  (∃ known, comp = .ok known) ∧ ∀ condition ∈ jump, ∃ known, condition = .ok known

/-- Nothing in the statement makes the machine fault. -/
def Statement.Supported : Statement → Prop
  | .compute _ comp jump => Known comp jump
  | _ => True

/-- Nothing in the instruction makes the machine fault. -/
def Instruction.Supported : Instruction → Prop
  | .load _ => True
  | .compute _ comp jump => Known comp jump

theorem known_ok (comp : Computation) (jump : Option Jump) : Known (.ok comp) (jump.map .ok) := by
  refine ⟨⟨comp, rfl⟩, fun condition hcondition => ?_⟩
  obtain ⟨known, -, rfl⟩ := Option.map_eq_some_iff.1 hcondition
  exact ⟨known, rfl⟩

/-- Looking symbols up adds nothing that could fault. -/
theorem Statement.Supported.instruction? {st : Statement} (h : st.Supported) {t : SymbolTable}
    {instruction : Instruction} (hst : st.instruction? t = some instruction) :
    instruction.Supported := by
  cases st with
  | label | unclosed => exact absurd hst (by simp [Statement.instruction?])
  | number | symbol =>
    obtain rfl := Option.some.inj hst
    trivial
  | compute dest comp jump =>
    obtain rfl := Option.some.inj hst
    exact h

/-! ### Steps and runs -/

namespace Cpu

/-- **One step**: a supported instruction does not fault, whatever is in the registers and in
    memory. -/
theorem execute_of_supported {instruction : Instruction} (h : instruction.Supported) (c : Cpu) :
    (c.execute instruction).2 = none := by
  cases instruction with
  | load value => rfl
  | compute dest comp jump =>
    obtain ⟨⟨comp, rfl⟩, hjump⟩ := h
    cases jump with
    | none => rfl
    | some condition =>
      obtain ⟨condition, rfl⟩ := hjump condition rfl
      rfl

/-- **A whole run**: the induction is on the steps, and from any state, since a jump may lead
    anywhere. -/
theorem run_of_supported {rom : Array Instruction}
    (h : ∀ instruction ∈ rom, instruction.Supported) (steps : Nat) (c : Cpu) :
    (c.run rom steps).2 = none := by
  induction steps generalizing c with
  | zero => rfl
  | succ steps ih =>
    cases hrom : rom[c.pc]? with
    | none => simp [run, hrom]
    | some instruction =>
      have hstep := execute_of_supported (h instruction (Array.mem_of_getElem? hrom)) c
      cases hc : c.execute instruction with
      | mk after fault =>
        obtain rfl : fault = none := by simpa [hc] using hstep
        simpa [run, hrom, hc] using ih after

end Cpu

/-! ### Compiled lines -/

/-- **What the assembler reads in a compiled line is supported**, whatever names it holds. -/
theorem supported_statement? {line : Line} {st : Statement} (h : statement? line.render = some st) :
    st.Supported := by
  have haddress : (∃ n, line = .number n) ∨ (∃ s, line = .symbol s) → st.Supported := by
    intro hline
    obtain ⟨st', hst', hkind⟩ := statement?_address line hline
    obtain rfl : st' = st := Option.some.inj (hst'.symm.trans h)
    cases st' with
    | number | symbol => trivial
    | label | unclosed | compute => exact hkind.elim
  cases line with
  | comment text => exact absurd h (by simp [statement?_comment])
  | label s =>
    rw [render_label] at h
    rcases statement?_paren (s.name.toList ++ [')']) with ⟨name, hst⟩ | hst
    · obtain rfl := Option.some.inj (hst.symm.trans h)
      trivial
    · obtain rfl := Option.some.inj (hst.symm.trans h)
      trivial
  | number n => exact haddress (.inl ⟨n, rfl⟩)
  | symbol s => exact haddress (.inr ⟨s, rfl⟩)
  | compute dest comp jump =>
    obtain rfl := Option.some.inj ((statement?_compute dest comp jump).symm.trans h)
    exact known_ok comp jump

/-- **Every instruction of an assembled program is supported** if its lines are compiled ones. -/
theorem supported_of_assembled {lines : List Line} {p : Program}
    (h : assemble (lines.map Line.render) = .ok p) :
    ∀ instruction ∈ p.rom, instruction.Supported := by
  intro instruction hmem
  rw [← Array.mem_toList_iff, (assembled_of_ok h).rom_lines] at hmem
  obtain ⟨line, -, hline⟩ := List.mem_filterMap.1 hmem
  obtain ⟨st, hst, hinstruction⟩ := Option.bind_eq_some_iff.1 hline
  exact (supported_statement? hst).instruction? hinstruction

end Machine

namespace Codegen

/-- **Compiled code never faults.**  Take a run of a compiler with any history, over any files, with
    any names and operands except for the one constant without a negation.  It gives its code, and
    if that assembles, then

    * every instruction of the program has a computation, and a jump if it has one, that the machine
      knows;
    * no run of the program faults, whatever is in memory and in the registers, wherever it starts
      and however long it is. -/
theorem compiled_code_never_faults (e : Emitter) (actions : List Action)
    (hcode : ∀ action ∈ actions, action.HasCode) :
    ∃ blocks after, e.perform actions = .ok (blocks, after) ∧
      ∀ p, assemble (blocks.flatten.map Line.render) = .ok p →
        (∀ instruction ∈ p.rom, instruction.Supported) ∧
        ∀ (steps : Nat) (c : Cpu), ∃ c', c.run p.rom steps = (c', none) := by
  refine ⟨_, _, e.perform_of_hasCode hcode, fun p hp => ?_⟩
  have hsupported := supported_of_assembled hp
  refine ⟨hsupported, fun steps c => ⟨(c.run p.rom steps).1, ?_⟩⟩
  exact Prod.ext rfl (Cpu.run_of_supported hsupported steps c)

/-- A run over names that look like instructions, labels and comments, with operands that no
    command line can have. -/
def hostile : List Action :=
  [.annotate true, .bootstrap, .compile "a//b" (.push .statics 3),
    .compile "D;JXX" (.pop .statics 9), .annotate false, .compile "Main" (.function "0;JUMP" 1),
    .compile "Main" (.label "x // y"), .compile "Main" (.ifGoto "=(\nD=Q"),
    .compile "Main" (.push .constant 70000), .compile "Main" (.push .temp (-1)),
    .compile "Main" (.pop .constant 5), .compile "Main" (.call "@" 65535),
    .compile "Main" (.operate .gt), .compile "Main" .ret]

theorem hostile_never_faults :
    (∀ action ∈ hostile, action.HasCode) ∧
      ∃ blocks after p, ({} : Emitter).perform hostile = .ok (blocks, after) ∧
        assemble (blocks.flatten.map Line.render) = .ok p ∧ p.rom.size = 219 ∧
        ∀ (steps : Nat) (c : Cpu), ∃ c', c.run p.rom steps = (c', none) := by
  have hcode : ∀ action ∈ hostile, action.HasCode := by decide
  refine ⟨hcode, ?_⟩
  obtain ⟨blocks, after, hperform, hnever⟩ := compiled_code_never_faults {} hostile hcode
  have hblocks := hperform.symm.trans (Emitter.perform_of_hasCode {} hcode)
  obtain ⟨rfl, -⟩ := Prod.mk.inj (Except.ok.inj hblocks)
  have hsize : (assemble ((Emitter.blocksOf {} hostile).flatten.map Line.render)).map
      (fun p => p.rom.size) = .ok 219 := by
    decide +kernel
  obtain ⟨p, hp, hrom⟩ := ok_of_map hsize
  exact ⟨_, after, p, hperform, hp, hrom, (hnever p hp).2⟩

end Codegen

end HackVM
