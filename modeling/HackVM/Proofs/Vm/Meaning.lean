import HackVM.Codegen.Block
import HackVM.Proofs.Machine.Stack
import HackVM.Proofs.Vm.Sentence

namespace HackVM

open Machine Codegen

/-!
# What commands mean

The virtual machine, defined without its code: its state is the index of the next command and the
memory, and every command is one step on both.

* `StackMachine` — the commands with what they refer to, and `StackMachine.step` — one command;
* `StackMachine.start?` — the state in which a program starts;
* `Resolved` — everything that commands refer to is declared, and `step_eq_none` — what
  can then still stop a program;
* `StackMachine.addressesRead` — the addresses that a command computes and reads from, and
  `execute_congr` — a command does not see the scratch registers if none of these is one;
* `StackMachine.Run` — runs of any length that never look at a scratch register.
-/

/-- A command, with the source file that it stands in and the function declared last before it. -/
structure Placed where
  /-- The name of the source file. -/
  file : String
  /-- The function declared last; empty before the first. -/
  owner : String
  /-- The command. -/
  command : Command

/-! ### What commands refer to -/

/-- The index of the command that declares a label of a function. -/
def labelIndex? (commands : List Placed) (owner label : String) : Option Nat :=
  commands.findIdx? fun c => c.owner = owner ∧ c.command = .label label

/-- Whether a command declares a function of a given name. -/
def Command.declares (name : String) : Command → Bool
  | .function name' _ => name' = name
  | _ => false

/-- The index of the command that declares a function. -/
def functionIndex? (commands : List Placed) (name : String) : Option Nat :=
  commands.findIdx? fun c => c.command.declares name

/-- What a command refers to is declared: the function that it calls, or the label that it goes to
    among those of its own function. -/
def resolves (commands : List Placed) (c : Placed) : Bool :=
  match c.command with
  | .call name _ => (functionIndex? commands name).isSome
  | .goto label | .ifGoto label => (labelIndex? commands c.owner label).isSome
  | _ => true

/-- The entry function and everything that commands refer to is declared. -/
structure Resolved (commands : List Placed) : Prop where
  /-- The entry function is declared. -/
  entry : (functionIndex? commands entryFunction).isSome
  /-- What commands refer to is declared. -/
  commands : ∀ c ∈ commands, resolves commands c

section

variable {commands : List Placed} {j : Nat}

theorem labelIndex?_some {owner label : String} (h : labelIndex? commands owner label = some j) :
    ∃ c, commands[j]? = some c ∧ c.owner = owner ∧ c.command = .label label := by
  obtain ⟨hlt, hget, -⟩ := List.findIdx?_eq_some_iff_getElem.1 h
  exact ⟨_, List.getElem?_eq_getElem hlt, by simpa using hget⟩

theorem Command.declares_iff {name : String} {command : Command} :
    command.declares name ↔ ∃ locals, command = .function name locals := by
  cases command <;> simp [declares]

theorem functionIndex?_some {name : String} (h : functionIndex? commands name = some j) :
    ∃ c locals, commands[j]? = some c ∧ c.command = .function name locals := by
  obtain ⟨hlt, hget, -⟩ := List.findIdx?_eq_some_iff_getElem.1 h
  obtain ⟨locals, hcommand⟩ := Command.declares_iff.1 hget
  exact ⟨_, locals, List.getElem?_eq_getElem hlt, hcommand⟩

end

/-- The commands of a program and what they refer to. -/
structure StackMachine where
  /-- The commands of all source files, in order. -/
  commands : List Placed
  /-- The address of a variable of a source file, by its index. -/
  static : String → Nat → Option Word
  /-- The word that stands for the place before a command, by its index, in a saved frame. -/
  place : Nat → Word

namespace StackMachine

/-- The state of the virtual machine. -/
structure State where
  /-- The index of the next command. -/
  index : Nat
  /-- The memory. -/
  ram : Memory

variable (vm : StackMachine)

/-! ### Segments and places -/

/-- The address of an index of a segment; the constants have none. -/
def cell? (file : String) (m : Memory) (segment : Segment) (index : Int) : Option Word :=
  match segment with
  | .constant => none
  | .locals => some (m.get .lcl + BitVec.ofInt 16 index)
  | .arguments => some (m.get .arg + BitVec.ofInt 16 index)
  | .this => some (m.get .this + BitVec.ofInt 16 index)
  | .that => some (m.get .that + BitVec.ofInt 16 index)
  | .pointer => some (3 + BitVec.ofInt 16 index)
  | .temp => some (5 + BitVec.ofInt 16 index)
  | .statics => vm.static file index.toNat

/-- The word at an index of a segment; a constant is its own index. -/
def value? (file : String) (m : Memory) (segment : Segment) (index : Int) : Option Word :=
  match segment with
  | .constant => some (BitVec.ofInt 16 index)
  | segment => (vm.cell? file m segment index).map m.read

/-- The index of the command before which a saved return address points. The end of the program
    counts as a place, too. -/
def placeIndex? (back : Word) : Option Nat :=
  (List.range (vm.commands.length + 1)).find? fun i => vm.place i = back

variable {vm} in
theorem placeIndex?_some {back : Word} {j : Nat} (h : vm.placeIndex? back = some j) :
    j ≤ vm.commands.length ∧ vm.place j = back := by
  have hmem := List.mem_of_find?_eq_some h
  have hplace := List.find?_some h
  exact ⟨by simpa [Nat.lt_succ_iff] using hmem, by simpa using hplace⟩

/-! ### Operators -/

/-- The word for a truth value. -/
def truth (holds : Bool) : Word :=
  if holds then -1 else 0

/-- What an operator does to the top of the stack. Comparisons look at the sign of the difference,
    which wraps around like every other word. -/
def operate (m : Memory) : Operator → Memory
  | .add => m.mapTops fun left right => left + right
  | .sub => m.mapTops fun left right => left - right
  | .neg => m.mapTop fun top => -top
  | .and => m.mapTops fun left right => left &&& right
  | .or => m.mapTops fun left right => left ||| right
  | .not => m.mapTop fun top => ~~~top
  | .eq => m.mapTops fun left right => truth (left - right = 0)
  | .gt => m.mapTops fun left right => truth (0 < (left - right).toInt)
  | .lt => m.mapTops fun left right => truth ((left - right).toInt < 0)

/-! ### Steps -/

/-- One command of a given place in the program, from the command with a given index on. -/
def execute (c : Placed) (s : State) : Option State :=
  match c.command with
  | .push segment index =>
    (vm.value? c.file s.ram segment index.toInt).map fun v => ⟨s.index + 1, s.ram.push v⟩
  | .pop segment index =>
    (vm.cell? c.file s.ram segment index.toNat).map fun a => ⟨s.index + 1, s.ram.popInto a⟩
  | .operate operator => some ⟨s.index + 1, operate s.ram operator⟩
  | .label _ => some ⟨s.index + 1, s.ram⟩
  | .goto label => (labelIndex? vm.commands c.owner label).map fun i => ⟨i, s.ram⟩
  | .ifGoto label =>
    if s.ram.drop.top = 0 then some ⟨s.index + 1, s.ram.drop⟩
    else (labelIndex? vm.commands c.owner label).map fun i => ⟨i, s.ram.drop⟩
  | .function _ locals => some ⟨s.index + 1, s.ram.pushZeros locals.toNat⟩
  | .call name arguments =>
    (functionIndex? vm.commands name).map fun i =>
      ⟨i, s.ram.enter (vm.place (s.index + 1)) (BitVec.ofNat 16 arguments.toNat)⟩
  | .ret => (vm.placeIndex? s.ram.returnAddress).map fun i => ⟨i, s.ram.leave⟩

/-- One step. There is none at the end of the program, and none from a command that refers to
    something that does not exist. -/
def step (s : State) : Option State := do
  let c ← vm.commands[s.index]?
  vm.execute c s

/-- The memory in which a program starts: the stack is empty but for the frame of a call without
    arguments. -/
def startRam (back : Word) : Memory :=
  (Memory.blank.set .sp (BitVec.ofNat 16 stackBase)).enter back 0

/-- The state in which a program starts: at the entry function, which returns to the first
    command. -/
def start? : Option State :=
  (functionIndex? vm.commands entryFunction).map fun i => ⟨i, startRam (vm.place 0)⟩

/-! ### What a step reads -/

/-- The addresses that a command computes and reads from; for a return also the one that it stores
    the result to, because it reads the frame after that. -/
def addressesRead (c : Placed) (m : Memory) : List Word :=
  match c.command with
  | .push segment index => (vm.cell? c.file m segment index.toInt).toList
  | .pop .. | .ifGoto _ => [m.get .sp - 1]
  | .operate operator =>
    if operator = .neg ∨ operator = .not then [m.get .sp - 1]
    else [m.get .sp - 1, m.get .sp - 2]
  | .ret => m.get .arg :: (m.get .sp - 1) :: [1, 2, 3, 4, 5].map fun i => m.get .lcl - i
  | _ => []

/-- A return from a frame above the registers reads none of them through an address. -/
theorem not_scratch_of_mem_addressesRead_ret {c : Placed} {m : Memory} (hret : c.command = .ret)
    (hlo : 16 ≤ (m.get .arg).toNat) (hframe : (m.get .arg).toNat + 5 ≤ (m.get .lcl).toNat)
    (hsp : (m.get .lcl).toNat < (m.get .sp).toNat) :
    ∀ a ∈ vm.addressesRead c m, ¬ Memory.Scratch a := by
  intro a ha
  apply Memory.not_scratch_of_le
  simp only [addressesRead, hret, List.mem_cons, List.map_cons, List.map_nil, List.not_mem_nil,
    or_false] at ha
  rcases ha with rfl | rfl | rfl | rfl | rfl | rfl | rfl <;> bv_omega

/-- All five words of the frame are among those that a return reads. -/
theorem not_scratch_frame {file owner : String} {m : Memory}
    (h : ∀ a ∈ vm.addressesRead ⟨file, owner, .ret⟩ m, ¬ Memory.Scratch a) :
    ∀ i ∈ ([1, 2, 3, 4, 5] : List Word), ¬ Memory.Scratch (m.get .lcl - i) :=
  fun i hi => h _ (by simp only [addressesRead, List.mem_cons, List.mem_map]; grind)

/-- A command reads no scratch register through an address that it computes, and its number of
    arguments, if it is a call, is small enough for the frame below them to be an address. -/
structure Clear (c : Placed) (m : Memory) : Prop where
  /-- No address that is read is that of a scratch register. -/
  reads : ∀ a ∈ vm.addressesRead c m, ¬ Memory.Scratch a
  /-- The arguments of a call and its frame fit into the addresses. -/
  fits : ∀ name arguments, c.command = .call name arguments →
    arguments.toNat + frameSize < 65536

/-- The runs of a number of steps in which every command is clear. -/
inductive Run : Nat → State → State → Prop
  | refl (s : State) : Run 0 s s
  | step {n : Nat} {s t u : State} {c : Placed} (run : Run n s t)
      (hc : vm.commands[t.index]? = some c) (hclear : vm.Clear c t.ram)
      (hstep : vm.step t = some u) : Run (n + 1) s u

/-! ### Where a run goes -/

variable {vm} in
/-- A step goes to a command, or to the end of the program. -/
theorem execute_index_le {c : Placed} {s t : State} (h : vm.execute c s = some t)
    (hs : s.index < vm.commands.length) : t.index ≤ vm.commands.length := by
  have hlabel : ∀ {owner label i}, labelIndex? vm.commands owner label = some i →
      i ≤ vm.commands.length :=
    fun hi => (List.findIdx?_eq_some_iff_getElem.1 hi).1.le
  obtain ⟨file, owner, command⟩ := c
  cases command with
  | push | pop =>
    obtain ⟨_, _, rfl⟩ := Option.map_eq_some_iff.1 h
    exact hs
  | operate | label | function =>
    obtain rfl := Option.some.inj h
    exact hs
  | goto label =>
    obtain ⟨_, hi, rfl⟩ := Option.map_eq_some_iff.1 h
    exact hlabel hi
  | ifGoto label =>
    simp only [execute] at h
    split at h
    · obtain rfl := Option.some.inj h
      exact hs
    · obtain ⟨_, hi, rfl⟩ := Option.map_eq_some_iff.1 h
      exact hlabel hi
  | call name arguments =>
    obtain ⟨_, hi, rfl⟩ := Option.map_eq_some_iff.1 h
    exact (List.findIdx?_eq_some_iff_getElem.1 hi).1.le
  | ret =>
    obtain ⟨_, hi, rfl⟩ := Option.map_eq_some_iff.1 h
    exact (placeIndex?_some hi).1

theorem placeIndex?_place_ne_none {i : Nat} (h : i ≤ vm.commands.length) :
    vm.placeIndex? (vm.place i) ≠ none := by
  rw [placeIndex?, Ne, List.find?_eq_none]
  exact fun hnone => hnone i (List.mem_range.2 (Nat.lt_succ_of_le h)) (decide_eq_true rfl)

/-- The variable that a command refers to has no address. -/
def LacksStatic (c : Placed) : Prop :=
  match c.command with
  | .push .statics index => vm.static c.file index.toInt.toNat = none
  | .pop .statics index => vm.static c.file index.toNat = none
  | _ => False

variable {vm} in
/-- **What can stop a program in which everything is declared**: its end, a return to a place that
    does not exist, or a variable without an address. -/
theorem step_eq_none (hresolved : Resolved vm.commands) (hfits : ∀ c ∈ vm.commands, c.command.Fits)
    {s : State} (h : vm.step s = none) :
    vm.commands[s.index]? = none ∨ ∃ c, vm.commands[s.index]? = some c ∧
      (c.command = .ret ∧ vm.placeIndex? s.ram.returnAddress = none ∨ vm.LacksStatic c) := by
  cases hc : vm.commands[s.index]? with
  | none => exact .inl rfl
  | some c =>
    refine .inr ⟨c, rfl, ?_⟩
    have hresolves := hresolved.commands c (List.mem_of_getElem? hc)
    have hfits := hfits c (List.mem_of_getElem? hc)
    have hexecute : vm.execute c s = none := by simpa [step, hc] using h
    obtain ⟨file, owner, command⟩ := c
    -- Only variables have no address; a pop into constants does not fit.
    cases command with
    | push segment index =>
      cases segment <;> simp_all [execute, value?, cell?, LacksStatic]
    | pop segment index =>
      cases segment <;> simp_all [execute, cell?, LacksStatic, Command.Fits]
    | operate | label | function => simp [execute] at hexecute
    | goto label => simp_all [execute, resolves]
    | ifGoto label =>
      simp only [execute] at hexecute
      split at hexecute <;> simp_all [resolves]
    | call name arguments => simp_all [execute, resolves]
    | ret => exact .inl ⟨rfl, by simpa [execute] using hexecute⟩

/-! ### Steps do not see the scratch registers -/

variable {vm} {c : Placed} {m m' u : Memory} {i j : Nat}

theorem cell?_congr (h : m.Agree m') (file : String) (segment : Segment) (index : Int) :
    vm.cell? file m segment index = vm.cell? file m' segment index := by
  -- The base of a segment is fixed or in a register that is not scratch.
  cases segment with
  | constant | pointer | temp | statics => rfl
  | locals | arguments | this | that => simp only [cell?]; rw [h.get _ (by decide)]

theorem value?_congr (h : m.Agree m') (file : String) (segment : Segment) (index : Int)
    (hread : ∀ a ∈ vm.cell? file m segment index, ¬ Memory.Scratch a) :
    vm.value? file m segment index = vm.value? file m' segment index := by
  have hcell : (vm.cell? file m segment index).map m.read =
      (vm.cell? file m' segment index).map m'.read := by
    rw [← cell?_congr h]
    exact Option.map_congr fun a ha => h a (hread a ha)
  cases segment with
  | constant => rfl
  | _ => exact hcell

theorem operate_congr (h : m.Agree m') (operator : Operator)
    (htop : ¬ Memory.Scratch (m.get .sp - 1))
    (hnext : operator ≠ .neg → operator ≠ .not → ¬ Memory.Scratch (m.get .sp - 2)) :
    (operate m operator).Agree (operate m' operator) := by
  cases operator with
  | neg | not =>
    simp only [operate]
    exact h.mapTop _ htop
  | add | sub | and | or | eq | gt | lt =>
    simp only [operate]
    exact h.mapTops _ htop (hnext (by simp) (by simp))

theorem addressesRead_congr (h : m.Agree m') (c : Placed) :
    vm.addressesRead c m = vm.addressesRead c m' := by
  have hsp := h.sp
  have hlcl := h.get .lcl (by decide)
  have harg := h.get .arg (by decide)
  obtain ⟨file, owner, command⟩ := c
  cases command <;> simp only [addressesRead, hsp, hlcl, harg, cell?_congr h]

theorem Clear.congr (h : m.Agree m') (hclear : vm.Clear c m) : vm.Clear c m' :=
  ⟨addressesRead_congr h c ▸ hclear.reads, hclear.fits⟩

/-- **A clear command does the same to memories that agree.** -/
theorem execute_congr (h : m.Agree m') (hclear : vm.Clear c m)
    (hstep : vm.execute c ⟨i, m⟩ = some ⟨j, u⟩) :
    ∃ u', vm.execute c ⟨i, m'⟩ = some ⟨j, u'⟩ ∧ u.Agree u' := by
  obtain ⟨file, owner, command⟩ := c
  have hreads := hclear.reads
  cases command with
  | push segment index =>
    obtain ⟨v, hv, heq⟩ := Option.map_eq_some_iff.1 hstep
    obtain ⟨rfl, rfl⟩ := State.mk.inj heq
    refine ⟨m'.push v, ?_, h.push v⟩
    have hvalue := value?_congr h file segment index.toInt
      fun a ha => hreads a (by simpa [addressesRead] using ha)
    exact Option.map_eq_some_iff.2 ⟨v, hvalue ▸ hv, rfl⟩
  | pop segment index =>
    obtain ⟨a, ha, heq⟩ := Option.map_eq_some_iff.1 hstep
    obtain ⟨rfl, rfl⟩ := State.mk.inj heq
    refine ⟨m'.popInto a, ?_, h.popInto a (hreads _ (by simp [addressesRead]))⟩
    exact Option.map_eq_some_iff.2 ⟨a, cell?_congr h .. ▸ ha, rfl⟩
  | operate operator =>
    obtain ⟨rfl, rfl⟩ := State.mk.inj (Option.some.inj hstep)
    refine ⟨operate m' operator, rfl, operate_congr h operator ?_ ?_⟩
    · refine hreads _ ?_
      simp only [addressesRead]
      split <;> simp
    · intro hneg hnot
      exact hreads _ (by simp [addressesRead, hneg, hnot])
  | label name =>
    obtain ⟨rfl, rfl⟩ := State.mk.inj (Option.some.inj hstep)
    exact ⟨m', rfl, h⟩
  | goto name =>
    obtain ⟨k, hk, heq⟩ := Option.map_eq_some_iff.1 hstep
    obtain ⟨rfl, rfl⟩ := State.mk.inj heq
    exact ⟨m', Option.map_eq_some_iff.2 ⟨k, hk, rfl⟩, h⟩
  | ifGoto name =>
    -- The two memories agree on the condition, so they take the same branch.
    have htop := h.top_drop (hreads _ (by simp [addressesRead]))
    simp only [execute] at hstep ⊢
    rw [← htop]
    by_cases hzero : m.drop.top = 0
    · rw [if_pos hzero] at hstep ⊢
      obtain ⟨rfl, rfl⟩ := State.mk.inj (Option.some.inj hstep)
      exact ⟨m'.drop, rfl, h.drop⟩
    · rw [if_neg hzero] at hstep ⊢
      obtain ⟨k, hk, heq⟩ := Option.map_eq_some_iff.1 hstep
      obtain ⟨rfl, rfl⟩ := State.mk.inj heq
      exact ⟨m'.drop, Option.map_eq_some_iff.2 ⟨k, hk, rfl⟩, h.drop⟩
  | function name locals =>
    obtain ⟨rfl, rfl⟩ := State.mk.inj (Option.some.inj hstep)
    exact ⟨_, rfl, h.pushZeros _⟩
  | call name arguments =>
    obtain ⟨k, hk, heq⟩ := Option.map_eq_some_iff.1 hstep
    obtain ⟨rfl, rfl⟩ := State.mk.inj heq
    exact ⟨_, Option.map_eq_some_iff.2 ⟨k, hk, rfl⟩, h.enter _ _⟩
  | ret =>
    obtain ⟨k, hk, heq⟩ := Option.map_eq_some_iff.1 hstep
    obtain ⟨rfl, rfl⟩ := State.mk.inj heq
    have hframe := vm.not_scratch_frame hreads
    have hback : m.returnAddress = m'.returnAddress := by
      unfold Memory.returnAddress
      rw [← h.get .lcl (by decide)]
      exact h _ (hframe 5 (by simp))
    refine ⟨m'.leave, Option.map_eq_some_iff.2 ⟨k, hback ▸ hk, rfl⟩, h.leave ?_ ?_⟩
    · exact hreads _ (by simp [addressesRead])
    · exact fun i hi => hframe i (by grind)

end StackMachine

end HackVM
