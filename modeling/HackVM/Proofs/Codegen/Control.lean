import HackVM.Proofs.Codegen.Effect

namespace HackVM.Codegen

open Asm Machine

/-!
# What the code with jumps does

Jumps, comparisons, calls and returns leave their block by a jump, or jump inside it.  For each,
this file says where the machine gets to and with which memory.

* `arrives_block` — code without jumps;
* `arrives_gotoCode`, `arrives_ifGotoCode` — jumps to a label;
* `arrives_compareCode` — comparisons, on both ways through;
* `arrives_callCode`, `arrives_returnCode` — calls and returns.
-/

variable {p : Program} {c : Cpu} {rest : List Line}

/-- The machine goes through code from one address to another, and leaves a given memory. -/
def Arrives (p : Program) (size : Nat) (c : Cpu) (target : Nat) (m : Memory) : Prop :=
  ∃ a d, c.Leads p.rom c.pc (c.pc + size) ⟨m, a, d, target⟩

/-- Code without jumps arrives at its end. -/
theorem arrives_block {lines : List Line} (hholds : p.Holds c.pc lines)
    (hstraight : lines.all Line.isStraight) (hpos : 0 < instructionCount lines) :
    Arrives p (instructionCount lines) c (c.pc + instructionCount lines)
      (p.follow lines c).ram := by
  refine ⟨(p.follow lines c).a, (p.follow lines c).d, ?_⟩
  rw [← follow_pc p lines c]
  have hleads := leads_follow hholds hstraight hpos
  rwa [← follow_pc p lines c] at hleads

/-- Code that ends with a jump. -/
theorem leads_follow_jump (lines : List Line) {comp : Computation} {condition : Jump}
    (hholds : p.Holds c.pc (lines ++ .jump comp condition :: rest))
    (hstraight : lines.all Line.isStraight) :
    c.Leads p.rom c.pc (c.pc + instructionCount lines + 1)
      { p.follow lines c with
        pc := if jumpHolds (computationValue (p.follow lines c).a (p.follow lines c).d
            (p.follow lines c).m comp) condition then (p.follow lines c).a.toNat
          else c.pc + instructionCount lines + 1 } := by
  obtain ⟨hlines, hjump⟩ := Program.holds_append.1 hholds
  rw [← follow_pc p lines c] at hjump ⊢
  -- Without instructions before the jump there is no stretch to put in front of it.
  rcases Nat.eq_zero_or_pos (instructionCount lines) with hzero | hpos
  · have hsame : p.follow lines c = c := by
      have hrun := (run_follow hlines hstraight).1
      rw [hzero] at hrun
      exact (Prod.mk.inj hrun).1.symm
    rw [hsame] at hjump ⊢
    exact leads_jump hjump
  · refine ((leads_follow hlines hstraight hpos).mono le_rfl ?_).trans ?_ ?_ (leads_jump hjump)
    · rw [follow_pc]; omega
    · rw [follow_pc]; omega
    · omega

/-! ### Jumps to a label -/

/-- Jumps look at words as signed numbers. -/
theorem toInt_eq_zero_iff (w : Word) : w.toInt = 0 ↔ w = 0 := by
  rw [← BitVec.toInt_inj]
  rfl

theorem arrives_gotoCode {target : Symbol} (hholds : p.Holds c.pc (gotoCode target ++ rest)) :
    Arrives p (instructionCount (gotoCode target)) c (p.operand (.symbol target)).toNat c.ram := by
  have hleads := leads_follow_jump [.symbol target] hholds rfl
  simp only [follow_cons, follow_nil, advance_symbol, jumpHolds, if_true] at hleads
  exact ⟨_, _, hleads⟩

theorem arrives_ifGotoCode (hreg : NamesRegisters p) {target : Symbol}
    (hholds : p.Holds c.pc (ifGotoCode target)) :
    Arrives p (instructionCount (ifGotoCode target)) c
      (if c.ram.drop.top = 0 then c.pc + instructionCount (ifGotoCode target)
        else (p.operand (.symbol target)).toNat) c.ram.drop := by
  have hleads := leads_follow_jump (popD ++ [.symbol target]) hholds rfl
  simp only [p.follow_append, follow_popD hreg, follow_cons, follow_nil, advance_symbol,
    computationValue, operandValue, jumpHolds, toInt_eq_zero_iff, decide_not] at hleads
  refine ⟨p.operand (.symbol target), c.ram.drop.top, ?_⟩
  have hsize : instructionCount (ifGotoCode target) =
      instructionCount (popD ++ [.symbol target]) + 1 := by
    simp [ifGotoCode, Nat.add_assoc]
  rw [hsize, ← Nat.add_assoc]
  by_cases hzero : c.ram.drop.top = 0
  · simpa only [hzero, decide_true, Bool.not_true, Bool.false_eq_true, if_false, if_true] using
      hleads
  · simpa only [hzero, decide_false, Bool.not_false, if_false, if_true] using hleads

/-! ### Comparisons -/

theorem isName_numbered {word : String} (h : IsName word) (number : Nat) :
    IsName (word ++ toString number) := by
  have htext : (word ++ toString number).toList = word.toList ++ Text.decimal number := by
    simp [Text.decimal]
  obtain ⟨⟨c, hc, hdigit⟩, hall⟩ := h
  refine ⟨⟨c, ?_, hdigit⟩, ?_⟩
  · rw [htext]
    exact List.mem_head?_append_of_mem_head? hc
  · intro d hd
    rw [htext] at hd
    rcases List.mem_append.1 hd with hd | hd
    · exact hall d hd
    · exact .inr (.inl (Text.isDigit_of_mem_decimal hd))

theorem isName_comparisonHolds (number : Nat) : IsName (Symbol.comparisonHolds number).name :=
  isName_numbered (by decide) number

theorem isName_comparisonEnd (number : Nat) : IsName (Symbol.comparisonEnd number).name :=
  isName_numbered (by decide) number

theorem isName_returnPoint (number : Nat) : IsName (Symbol.returnPoint number).name :=
  isName_numbered (by decide) number

/-- The address line for a label loads the label's place. -/
theorem toNat_operand_label {s : Symbol} (hname : IsName s.name) {pc : Nat}
    (hholds : p.Holds pc (.label s :: rest)) (hpc : pc < 65536) :
    (p.operand (.symbol s)).toNat = pc := by
  rw [operand_symbol p hname hholds.1, BitVec.toNat_ofNat, Nat.mod_eq_of_lt hpc]

/-- The part of a comparison up to the first jump. -/
def compareHead (number : Nat) : List Line :=
  popD ++ pointAtTop ++ [Line.set .d (.subtract .m .d), Line.symbol (.comparisonHolds number)]

/-- The part of a comparison for the case that it does not hold. -/
def compareElse (number : Nat) : List Line :=
  pointAtTop ++ [Line.set .m (.value .zero), Line.symbol (.comparisonEnd number)]

/-- The part of a comparison for the case that it holds. -/
def compareThen : List Line :=
  pointAtTop ++ [Line.set .m (.negate .one)]

theorem compareCode_eq (number : Nat) (condition : Jump) :
    compareCode number condition =
      compareHead number ++ Line.jump (.value .d) condition ::
        (compareElse number ++ Line.jump (.value .zero) .always ::
          Line.label (.comparisonHolds number) ::
            (compareThen ++ [Line.label (.comparisonEnd number)])) := by
  simp [compareCode, compareHead, compareElse, compareThen]

/-- The difference that a comparison looks at. -/
def difference (m : Memory) : Word :=
  m.drop.read (m.drop.get .sp - 1) - m.drop.top

theorem leads_compareHead (hreg : NamesRegisters p) {number : Nat} {condition : Jump}
    (hholds : p.Holds c.pc (compareHead number ++ .jump (.value .d) condition :: rest)) :
    ∃ c', c.Leads p.rom c.pc (c.pc + 9) c' ∧ c'.ram = c.ram.drop ∧
      c'.pc = if jumpHolds (difference c.ram) condition
        then (p.operand (.symbol (.comparisonHolds number))).toNat else c.pc + 9 := by
  have hfollow : p.follow (compareHead number) c = ⟨c.ram.drop,
      p.operand (.symbol (.comparisonHolds number)), difference c.ram, c.pc + 8⟩ := by
    simp only [compareHead, p.follow_append, follow_popD hreg, follow_pointAtTop hreg, follow_cons,
      follow_nil, advance_symbol, advance_set_d, computationValue, operandValue, difference]
  have hsize : instructionCount (compareHead number) = 8 := rfl
  have hleads := leads_follow_jump (compareHead number) hholds rfl
  simp only [hfollow, hsize, computationValue, operandValue] at hleads
  exact ⟨_, hleads, rfl, rfl⟩

theorem arrives_compareElse (hreg : NamesRegisters p) {number : Nat}
    (hholds : p.Holds c.pc (compareElse number ++ .jump (.value .zero) .always :: rest)) :
    Arrives p 5 c (p.operand (.symbol (.comparisonEnd number))).toNat
      (c.ram.mapTop fun _ => 0) := by
  have hfollow : p.follow (compareElse number) c = ⟨c.ram.mapTop fun _ => 0,
      p.operand (.symbol (.comparisonEnd number)), c.d, c.pc + 4⟩ := by
    simp only [compareElse, p.follow_append, follow_pointAtTop hreg, follow_cons, follow_nil,
      advance_symbol, advance_set_m, computationValue, operandValue, Memory.mapTop]
  have hsize : instructionCount (compareElse number) = 4 := rfl
  have hleads := leads_follow_jump (compareElse number) hholds rfl
  simp only [hfollow, hsize, jumpHolds, if_true] at hleads
  exact ⟨_, _, hleads⟩

theorem arrives_compareThen (hreg : NamesRegisters p) (hholds : p.Holds c.pc compareThen) :
    Arrives p 3 c (c.pc + 3) (c.ram.mapTop fun _ => -1) := by
  have hfollow : (p.follow compareThen c).ram = c.ram.mapTop fun _ => -1 := by
    simp only [compareThen, p.follow_append, follow_pointAtTop hreg, follow_cons, follow_nil,
      advance_set_m, computationValue, operandValue, Memory.mapTop]
  rw [← hfollow]
  exact arrives_block hholds rfl (by decide)

/-- Both ways through a comparison end after it. -/
theorem arrives_compareCode (hreg : NamesRegisters p) {number : Nat} {condition : Jump}
    (hholds : p.Holds c.pc (compareCode number condition))
    (hend : c.pc + instructionCount (compareCode number condition) < 65536) :
    Arrives p (instructionCount (compareCode number condition)) c
      (c.pc + instructionCount (compareCode number condition))
      (c.ram.mapTops fun left right => if jumpHolds (left - right) condition then -1 else 0) := by
  have hsize : instructionCount (compareCode number condition) = 17 := by
    simp [compareCode, popD, pointAtTop]
  have hhead : instructionCount (compareHead number) = 8 := by
    simp [compareHead, popD, pointAtTop]
  have helse : instructionCount (compareElse number) = 4 := by
    simp [compareElse, pointAtTop]
  have hthen : instructionCount compareThen = 3 := by
    simp [compareThen, pointAtTop]
  rw [hsize] at hend ⊢
  rw [compareCode_eq] at hholds
  obtain ⟨c₁, hfirst, hram, hpc⟩ := leads_compareHead hreg hholds
  -- The two labels stand before the second part and at the end.
  obtain ⟨-, -, helseHolds⟩ := Program.holds_append.1 hholds
  obtain ⟨-, -, hlabel, hrest⟩ := Program.holds_append.1 helseHolds
  obtain ⟨hthenHolds, hendLabel⟩ := Program.holds_append.1 hrest
  rw [hhead] at helseHolds
  rw [hhead, helse] at hlabel hrest hthenHolds hendLabel
  rw [hthen] at hendLabel
  have hholdsAt := toNat_operand_label (isName_comparisonHolds number) ⟨hlabel, hrest⟩ (by omega)
  have hendAt := toNat_operand_label (isName_comparisonEnd number) hendLabel (by omega)
  rw [Memory.mapTops_eq]
  change Arrives p 17 c (c.pc + 17)
    (c.ram.drop.mapTop fun _ => if jumpHolds (difference c.ram) condition then -1 else 0)
  rw [← hram]
  -- Each way is the head and one part; the end label makes the other way join it.
  by_cases hcond : jumpHolds (difference c.ram) condition
  · rw [if_pos hcond, hholdsAt] at hpc
    obtain ⟨a, d, hsecond⟩ := arrives_compareThen hreg (hpc ▸ hthenHolds)
    simp only [hcond, if_true]
    rw [hpc] at hsecond
    exact ⟨a, d, (hfirst.mono le_rfl (by omega)).trans (by omega) (by omega)
      (hsecond.mono (by omega) (by omega))⟩
  · rw [if_neg hcond] at hpc
    obtain ⟨a, d, hsecond⟩ := arrives_compareElse hreg (hpc ▸ helseHolds)
    simp only [hcond, if_false, Bool.false_eq_true]
    rw [hpc, hendAt] at hsecond
    exact ⟨a, d, (hfirst.mono le_rfl (by omega)).trans (by omega) (by omega)
      (hsecond.mono (by omega) (by omega))⟩

/-! ### Calls and returns -/

/-- Code that ends with an unconditional jump. -/
theorem arrives_follow_jump (lines : List Line)
    (hholds : p.Holds c.pc (lines ++ .jump (.value .zero) .always :: rest))
    (hstraight : lines.all Line.isStraight) :
    Arrives p (instructionCount lines + 1) c (p.follow lines c).a.toNat (p.follow lines c).ram :=
  ⟨_, _, leads_follow_jump lines hholds hstraight⟩

theorem callCode_eq (number : Nat) (function : String) (arguments : UInt16) :
    callCode number function arguments =
      (frameCode number arguments.toNat ++ [Line.symbol (.function function)]) ++
        Line.jump (.value .zero) .always :: [Line.label (.returnPoint number)] := by
  simp [callCode, frameCode, gotoCode]

theorem instructionCount_functionCode (name : String) (locals : UInt16) :
    instructionCount (functionCode name locals) = locals.toNat * 5 := by
  have hcount : ∀ n, instructionCount (List.replicate n pushZero).flatten = n * 5 := by
    intro n
    induction n with
    | zero => rfl
    | succ n ih =>
      rw [List.replicate_succ, List.flatten_cons, instructionCount_append, ih, Nat.succ_mul,
        Nat.add_comm]
      rfl
  rw [functionCode, instructionCount_cons, Line.size_label, hcount, Nat.zero_add]

theorem instructionCount_callCode (number : Nat) (function : String) (arguments : UInt16) :
    instructionCount (callCode number function arguments) =
      instructionCount (frameCode number arguments.toNat ++ [Line.symbol (.function function)]) +
        1 := by
  rw [callCode_eq]
  simp

/-- A call gets to the function with a new frame, whose return address is the place after the
    call. -/
theorem arrives_callCode (hreg : NamesRegisters p) {number : Nat} {function : String}
    {arguments : UInt16} (hholds : p.Holds c.pc (callCode number function arguments))
    (hfits : arguments.toNat + frameSize < 65536) :
    Arrives p (instructionCount (callCode number function arguments)) c
      (p.operand (.symbol (.function function))).toNat
      (c.ram.enter
        (BitVec.ofNat 16 (c.pc + instructionCount (callCode number function arguments)))
        (BitVec.ofNat 16 arguments.toNat)) := by
  have hsize := instructionCount_callCode number function arguments
  rw [callCode_eq] at hholds
  -- The label after the jump gives the return address.
  obtain ⟨-, -, hback⟩ := Program.holds_append.1 hholds
  rw [Nat.add_assoc, ← hsize] at hback
  have hram := ram_frameCode hreg c number hfits
  rw [operand_symbol p (isName_returnPoint number) hback.1] at hram
  have harrives := arrives_follow_jump _ hholds rfl
  rw [p.follow_append, follow_cons, follow_nil, advance_symbol, ← hsize] at harrives
  rw [← hram]
  exact harrives

/-- A return gets to the return address in the frame. -/
theorem arrives_returnCode (hreg : NamesRegisters p) (hholds : p.Holds c.pc returnCode)
    (harg : ¬ Memory.Scratch (c.ram.get .arg)) (hback : ¬ Memory.Scratch (c.ram.get .lcl - 5)) :
    Arrives p (instructionCount returnCode) c c.ram.returnAddress.toNat (unwound c.ram) := by
  have hne : ∀ {a : Word}, ¬ Memory.Scratch a → a ≠ 14 ∧ a ≠ 15 :=
    fun ha => ⟨fun h => ha (.inr (.inl h)), fun h => ha (.inr (.inr h))⟩
  have hram := ram_unwindCode hreg c (hne harg).1
  have hr15 := get_r15_unwound (hne harg).2 (hne hback).1
  have hsplit : returnCode = (unwindCode ++ [.load .r15, .set .a (.value .m)]) ++
      .jump (.value .zero) .always :: [] := by
    rw [returnCode_eq, List.append_assoc]
    rfl
  have hsize : instructionCount returnCode =
      instructionCount (unwindCode ++ [.load .r15, .set .a (.value .m)]) + 1 := by
    rw [hsplit, instructionCount_append]
    rfl
  have harrives := arrives_follow_jump _ (hsplit ▸ hholds) rfl
  rw [p.follow_append, follow_cons, follow_cons, follow_nil, advance_load hreg, advance_set_a,
    ← hsize] at harrives
  simp only [computationValue, operandValue, hram, Memory.read_address, hr15] at harrives
  exact harrives

end HackVM.Codegen
