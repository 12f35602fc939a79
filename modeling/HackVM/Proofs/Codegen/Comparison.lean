import HackVM.Proofs.Codegen.Numbering

namespace HackVM

open Asm Machine StackMachine

/-!
# What comparisons compare

A comparison looks at the difference of its operands, which wraps around like every other word.  So
`eq` holds just of equal words, and `gt` and `lt` are the order of signed numbers as long as the
difference is a signed word again.  If it is not, its sign is the wrong one, and they say the
opposite.

* `Operator.Relates` — what a comparison asks of its operands;
* `toInt_sub_sign` — the sign of a difference that wraps around, and `jumpHolds_difference` — hence
  what the jump of a comparison decides;
* `Memory.read_mapTops` — what is in memory after two words are replaced by one;
* `arrives_comparison` — the code of a comparison, after any history and among any other lines;
* `comparison_decides_by_difference` — what it leaves at every address.
-/

/-! ### Signed order -/

/-- What a comparison asks of two words, as signed numbers. -/
def Operator.Relates : Operator → Word → Word → Prop
  | .eq, left, right => left.toInt = right.toInt
  | .gt, left, right => left.toInt > right.toInt
  | .lt, left, right => left.toInt < right.toInt
  | _, _, _ => False

instance (op : Operator) (left right : Word) : Decidable (op.Relates left right) :=
  match op with
  | .eq => inferInstanceAs (Decidable (left.toInt = right.toInt))
  | .gt => inferInstanceAs (Decidable (left.toInt > right.toInt))
  | .lt => inferInstanceAs (Decidable (left.toInt < right.toInt))
  | .add | .sub | .neg | .and | .or | .not => inferInstanceAs (Decidable False)

/-- A difference of words, as signed numbers, is kept, or one turn too far up or down. -/
theorem toInt_sub_cases (left right : Word) :
    (left.ssubOverflow right = false ∧ (left - right).toInt = left.toInt - right.toInt) ∨
    (left.ssubOverflow right = true ∧ left.toInt > right.toInt ∧ (left - right).toInt < 0) ∨
    (left.ssubOverflow right = true ∧ left.toInt < right.toInt ∧ (left - right).toInt > 0) := by
  have hleft := left.toInt_lt
  have hleft' := left.le_toInt
  have hright := right.toInt_lt
  have hright' := right.le_toInt
  have hsub : (left - right).toInt = (left.toInt - right.toInt).bmod 65536 := BitVec.toInt_sub ..
  rw [Int.bmod_def] at hsub
  simp only [BitVec.ssubOverflow, Bool.or_eq_false_iff, Bool.or_eq_true, decide_eq_false_iff_not,
    decide_eq_true_eq]
  omega

/-- **The sign of a difference of words** is that of the order of the words as signed numbers, or
    the opposite one if the difference is no signed word. -/
theorem toInt_sub_sign (left right : Word) :
    (0 < (left - right).toInt ↔ (left.toInt > right.toInt ↔ left.ssubOverflow right = false)) ∧
      ((left - right).toInt < 0 ↔
        (left.toInt < right.toInt ↔ left.ssubOverflow right = false)) := by
  rcases toInt_sub_cases left right with ⟨hover, hsub⟩ | ⟨hover, hgt, hneg⟩ | ⟨hover, hlt, hpos⟩
  · simp only [hover, iff_true]
    omega
  · simp only [hover, Bool.true_eq_false, iff_false]
    omega
  · simp only [hover, Bool.true_eq_false, iff_false]
    omega

namespace Codegen

/-- **What the jump of a comparison decides**: what the comparison asks, unless the difference is
    no signed word, and then the opposite.  Whether words are equal does not depend on that. -/
theorem jumpHolds_difference {op : Operator} {condition : Jump}
    (h : comparison? op = some condition) (left right : Word) :
    jumpHolds (left - right) condition = true ↔
      (op.Relates left right ↔ op = .eq ∨ left.ssubOverflow right = false) := by
  cases op with
  | eq =>
    obtain rfl := Option.some.inj h
    simp only [jumpHolds, decide_eq_true_eq, toInt_eq_zero_iff, Operator.Relates, BitVec.toInt_inj,
      true_or, iff_true]
    constructor <;> bv_omega
  | gt =>
    obtain rfl := Option.some.inj h
    simpa [jumpHolds, Operator.Relates] using (toInt_sub_sign left right).1
  | lt =>
    obtain rfl := Option.some.inj h
    simpa [jumpHolds, Operator.Relates] using (toInt_sub_sign left right).2
  | add | sub | neg | and | or | not => exact absurd h (by simp [comparison?])

end Codegen

/-! ### Memory -/

/-- What is in memory after the two words on top of the stack are replaced by one, as long as the
    stack is clear of the stack pointer. -/
theorem Machine.Memory.read_mapTops {m : Memory} (hsp : 2 < (m.get .sp).toNat)
    (f : Word → Word → Word) (a : Word) :
    (m.mapTops f).read a =
      if a = m.get .sp - 2 then f (m.read (m.get .sp - 2)) (m.read (m.get .sp - 1))
      else if a = 0 then m.get .sp - 1 else m.read a := by
  have hdrop : m.drop.get .sp = m.get .sp - 1 := get_set_self ..
  have htwo : m.get .sp - 1 - 1 = m.get .sp - 2 := by bv_omega
  -- Below the stack pointer, the operands are where they were.
  have hread : ∀ b : Word, b ≠ 0 → m.drop.read b = m.read b :=
    fun b hb => read_set_of_ne m _ fun heq => hb heq.symm
  have hleft : m.drop.read (m.get .sp - 2) = m.read (m.get .sp - 2) := hread _ (by bv_omega)
  have hright : m.drop.top = m.read (m.get .sp - 1) := by
    rw [top, hdrop]
    exact hread _ (by bv_omega)
  rw [mapTops, mapTop, hdrop, htwo, hleft, hright, read_write, drop, read_set]
  simp only [eq_comm]
  rfl

namespace Codegen

/-! ### The code of a comparison -/

theorem operatorCode_of_comparison? (number : Nat) {op : Operator} {condition : Jump}
    (h : comparison? op = some condition) :
    operatorCode number op = compareCode number condition := by
  cases op with
  | eq | gt | lt =>
    obtain rfl := Option.some.inj h
    rfl
  | add | sub | neg | and | or | not => exact absurd h (by simp [comparison?])

/-- The labels of operators are names, whatever function the operator stands in. -/
theorem cleanLabels_operate (e : Emitter) (file : String) (op : Operator) :
    CleanLabels (e.code file (.operate op)) := by
  intro s hs
  rw [← mem_definitions, Emitter.code, definitions_append, Emitter.definitions_note,
    definitions_body] at hs
  have hsymbol : s ∈ comparisonSymbols (e.comparisons + 1) op := hs
  unfold comparisonSymbols at hsymbol
  split at hsymbol
  · rcases List.mem_pair.1 hsymbol with rfl | rfl
    · exact isName_comparisonHolds _
    · exact isName_comparisonEnd _
  · exact absurd hsymbol List.not_mem_nil

section

variable {e : Emitter} {file : String} {op : Operator} {condition : Jump}
  {before after : List String} {p : Program} {cpu : Cpu}

/-- **The code of a comparison is gone through to its end**, after any history of the compiler and
    among any other lines, as long as none before it is an open parenthesis. -/
theorem arrives_comparison (hop : comparison? op = some condition)
    (hload : assemble (before ++ ((e.code file (.operate op)).map Line.render ++ after)) = .ok p)
    (hclosed : Statement.unclosed ∉ statements before)
    (hpc : cpu.pc = addresses (statements before)) :
    Arrives p (instructionCount (e.code file (.operate op))) cpu
      (cpu.pc + instructionCount (e.code file (.operate op)))
      (cpu.ram.mapTops fun left right => truth (jumpHolds (left - right) condition)) := by
  have hpasses := assembled_of_ok hload
  have hclean := cleanLabels_operate e file op
  have hholds := holds_of_assembled_between hpasses hclosed hclean
  have hsize : instructionCount (e.code file (.operate op)) =
      instructionCount (compareCode (e.comparisons + 1) condition) := by
    rw [Emitter.code, instructionCount_append, Compilation.instructionCount_note, Nat.zero_add,
      ← operatorCode_of_comparison? _ hop]
    rfl
  have hend : cpu.pc + instructionCount (e.code file (.operate op)) < 65536 := by
    have hfits := hpasses.fits
    rw [statements_append, statements_append, addresses_append, addresses_append,
      ← instructionCount_eq_addresses hclean, ← hpc, addressCount] at hfits
    omega
  -- The comment before the code takes up no address.
  rw [Emitter.code, Program.holds_append, Compilation.instructionCount_note, ← hpc] at hholds
  have hblock : p.Holds cpu.pc (operatorCode (e.comparisons + 1) op) := hholds.2
  rw [operatorCode_of_comparison? _ hop] at hblock
  rw [hsize] at hend ⊢
  exact arrives_compareCode (operand_load hpasses) hblock hend

/-- **Comparisons decide by the difference.**  Take the code of a comparison, after any history of
    the compiler, among any other lines of which none before it is an open parenthesis, and a state
    of the machine at its first instruction with two words on the stack.  The machine gets to the
    end of the code, with the stack pointer moved down by one, with -1 or 0 in place of the left
    operand, and with every other word as it was.  Whether that is -1 is

    * what the comparison asks of the operands as signed numbers, if it is `eq`, or if their
      difference is a signed word;
    * the opposite of that, if it is `gt` or `lt` and their difference is no signed word. -/
theorem comparison_decides_by_difference (hop : (comparison? op).isSome)
    (hload : assemble (before ++ ((e.code file (.operate op)).map Line.render ++ after)) = .ok p)
    (hclosed : Statement.unclosed ∉ statements before)
    (hpc : cpu.pc = addresses (statements before)) {s left right : Word}
    (hs : cpu.ram.get .sp = s) (hlo : 258 ≤ s.toNat) (hleft : cpu.ram.read (s - 2) = left)
    (hright : cpu.ram.read (s - 1) = right) :
    ∃ steps cpu', cpu.run p.rom steps = (cpu', none) ∧
      cpu'.pc = cpu.pc + instructionCount (e.code file (.operate op)) ∧
      cpu'.ram.get .sp = s - 1 ∧
      (op = .eq ∨ left.ssubOverflow right = false →
        cpu'.ram.read (s - 2) = truth (op.Relates left right)) ∧
      (op ≠ .eq → left.ssubOverflow right = true →
        cpu'.ram.read (s - 2) = truth (¬ op.Relates left right)) ∧
      ∀ a : Word, a ≠ 0 → a ≠ s - 2 → cpu'.ram.read a = cpu.ram.read a := by
  obtain ⟨condition, hcondition⟩ := Option.isSome_iff_exists.1 hop
  obtain ⟨a, d, steps, -, hrun, -⟩ := arrives_comparison hcondition hload hclosed hpc
  have hread := Memory.read_mapTops (m := cpu.ram) (by rw [hs]; omega)
    fun left right => truth (jumpHolds (left - right) condition)
  have hdecides := jumpHolds_difference hcondition left right
  rw [hs, hleft, hright] at hread
  have hresult : ∀ {holds : Prop} [Decidable holds],
      (holds ↔ (op.Relates left right ↔ op = .eq ∨ left.ssubOverflow right = false)) →
      (cpu.ram.mapTops fun left right => truth (jumpHolds (left - right) condition)).read (s - 2) =
        truth holds := by
    intro holds _ hholds
    rw [hread, if_pos rfl]
    congr 1
    rw [Bool.eq_iff_iff, hdecides, decide_eq_true_iff, hholds]
  refine ⟨steps, _, hrun, rfl, ?_, ?_, ?_, ?_⟩
  · have hzero : Register.sp.address = 0 := rfl
    rw [Memory.get, hzero, hread, if_neg (by bv_omega), if_pos rfl]
  · intro hfits
    exact hresult (by simp [hfits])
  · intro hne hover
    exact hresult (by simp [hne, hover])
  · intro b hzero hne
    rw [hread, if_neg hne, if_neg hzero]

end

/-- The machine at an instruction, with two words on a stack that starts at 256. -/
def comparing (pc : Nat) (left right : Word) : Cpu :=
  { (((Cpu.start.poke 0 258).poke 256 left).poke 257 right) with pc }

theorem comparing_stack (pc : Nat) (left right : Word) :
    (comparing pc left right).ram.get .sp = 258 ∧ (comparing pc left right).ram.read 256 = left ∧
      (comparing pc left right).ram.read 257 = right := by
  simp [comparing, Cpu.poke, Memory.get, Memory.read_write, Register.address, Cpu.start]

/-- A run that writes comments, declares names of generated labels and compares once before. -/
def compared : List Action :=
  [.annotate true, .bootstrap, .compile "Sys" (.function "Sys.init" 2),
    .compile "Sys" (.operate .eq), .compile "Sys" (.label "JUMP_TRUE_2")]

/-- The second comparison of a run, at a pair whose difference is a signed word and at one whose
    difference is not: both are decided alike. -/
theorem compared_lt_decides :
    let e := Emitter.followAll {} compared
    let before := (Emitter.blocksOf {} compared).flatten.map Line.render
    ∃ p, assemble (before ++ ((e.code "Sys" (.operate .lt)).map Line.render ++ ["(END)"])) = .ok p ∧
      Statement.unclosed ∉ statements before ∧ addresses (statements before) = 78 ∧
      (Operator.lt.Relates (-3) 5 ∧ BitVec.ssubOverflow (-3 : Word) 5 = false ∧
        ∃ steps cpu', (comparing 78 (-3) 5).run p.rom steps = (cpu', none) ∧ cpu'.pc = 95 ∧
          cpu'.ram.get .sp = 257 ∧ cpu'.ram.read 256 = -1 ∧ cpu'.ram.read 257 = 5) ∧
      (¬ Operator.lt.Relates 32767 (-32768) ∧ BitVec.ssubOverflow (32767 : Word) (-32768) = true ∧
        ∃ steps cpu', (comparing 78 32767 (-32768)).run p.rom steps = (cpu', none) ∧
          cpu'.pc = 95 ∧ cpu'.ram.get .sp = 257 ∧ cpu'.ram.read 256 = -1 ∧
          cpu'.ram.read 257 = -32768) := by
  intro e before
  have hsize : (assemble (before ++ ((e.code "Sys" (.operate .lt)).map Line.render ++
      ["(END)"]))).map (fun p => p.rom.size) = .ok 95 := by
    decide +kernel
  obtain ⟨p, hload, -⟩ := ok_of_map hsize
  have hread : ∀ unit ∈ compared.filterMap Action.unit?,
      Command.ofLine unit.2.render.toList = .ok unit.2 := by
    decide +kernel
  have hclosed : Statement.unclosed ∉ statements before :=
    unclosed_not_mem_statements (cleanLabels_blocksOf (.inl rfl) (Action.accepted_of_render hread))
  have hstart : addresses (statements before) = 78 := by decide +kernel
  have hcount : instructionCount (e.code "Sys" (.operate .lt)) = 17 := by decide +kernel
  have hpc : ∀ left right, (comparing 78 left right).pc = addresses (statements before) :=
    fun _ _ => hstart.symm
  refine ⟨p, hload, hclosed, hstart, ⟨by decide, by decide, ?_⟩, by decide, by decide, ?_⟩
  · obtain ⟨hsp, hleft, hright⟩ := comparing_stack 78 (-3) 5
    obtain ⟨steps, cpu', hrun, hend, hsp', hfits, -, hframe⟩ :=
      comparison_decides_by_difference (by decide) hload hclosed (hpc _ _) hsp (by decide) hleft
        hright
    rw [hcount] at hend
    exact ⟨steps, cpu', hrun, hend, hsp', hfits (by decide),
      (hframe 257 (by decide) (by decide)).trans hright⟩
  · obtain ⟨hsp, hleft, hright⟩ := comparing_stack 78 32767 (-32768)
    obtain ⟨steps, cpu', hrun, hend, hsp', -, hwraps, hframe⟩ :=
      comparison_decides_by_difference (by decide) hload hclosed (hpc _ _) hsp (by decide) hleft
        hright
    rw [hcount] at hend
    exact ⟨steps, cpu', hrun, hend, hsp', hwraps (by decide) (by decide),
      (hframe 257 (by decide) (by decide)).trans hright⟩

/-- **Comparisons are not the order of signed numbers.**  `gt` alone in a program, run on -32767
    and 2, never ends with the 0 that the order of signed numbers asks for. -/
theorem gt_not_signed_order :
    ∃ p, assemble ((Emitter.code {} "Main" (.operate .gt)).map Line.render) = .ok p ∧
      (comparing 0 (-32767) 2).ram.get .sp = 258 ∧
      (comparing 0 (-32767) 2).ram.read 256 = -32767 ∧
      (comparing 0 (-32767) 2).ram.read 257 = 2 ∧
      ¬ ∃ steps cpu', (comparing 0 (-32767) 2).run p.rom steps = (cpu', none) ∧
        cpu'.pc = instructionCount (Emitter.code {} "Main" (.operate .gt)) ∧
        cpu'.ram.read 256 = truth (Operator.gt.Relates (-32767) 2) := by
  have hsize : (assemble ((Emitter.code {} "Main" (.operate .gt)).map Line.render)).map
      (fun p => p.rom.size) = .ok 17 := by
    decide +kernel
  obtain ⟨p, hload, hrom⟩ := ok_of_map hsize
  obtain ⟨hsp, hleft, hright⟩ := comparing_stack 0 (-32767) 2
  refine ⟨p, hload, hsp, hleft, hright, ?_⟩
  rintro ⟨steps, cpu', hrun, hpc, hresult⟩
  have hwhole : assemble ([] ++ ((Emitter.code {} "Main" (.operate .gt)).map Line.render ++ [])) =
      .ok p := by
    rwa [List.append_nil]
  have hstart : (comparing 0 (-32767) 2).pc = addresses (statements []) := rfl
  obtain ⟨a, d, hleads⟩ := arrives_comparison rfl hwhole List.not_mem_nil hstart
  -- The program ends with the comparison, so the machine stops there.
  have houtside : p.rom[17]? = none := by simp [hrom]
  obtain rfl := hleads.eq_of_outside houtside (by decide) hrun hpc
  have hover : ((comparing 0 (-32767) 2).ram.mapTops fun left right =>
      truth (jumpHolds (left - right) .ifPositive)).read 256 = -1 := by
    decide
  exact absurd (hover.symm.trans hresult) (by decide)

end Codegen

end HackVM
