import HackVM.Codegen.Program
import HackVM.Proofs.Codegen.Control
import HackVM.Proofs.Vm.Meaning

namespace HackVM.Codegen

open Asm Machine

/-!
# Where the code of each command stands

A program is compiled from several files with one history.  Laid out in one row, its commands have
indices, and each has a block of code at an address of its own.

* `Compilation` — what is compiled, `Compilation.code` — its code, and `loads_of_compileProgram` —
  the compiler gives that code;
* `Compilation.commands` and `Compilation.address` — the commands in one row, and where the code of
  each starts;
* `Compilation.Loads` — the code assembles to a program;
* `Loads.holds` — that program holds the code of each command at its address.
-/

/-- The commands of a source file, with the name that its variables carry. -/
structure SourceFile where
  /-- The name. -/
  name : String
  /-- The commands. -/
  commands : List Command

/-- What is compiled, and how. -/
structure Compilation where
  /-- Whether the code that starts a program comes first. -/
  bootstrap : Bool
  /-- Whether each command's code is preceded by the command as a comment. -/
  annotate : Bool
  /-- The files, in order. -/
  files : List SourceFile

/-! ### The code of files -/

/-- The code of files in order. -/
def Emitter.codeFiles (e : Emitter) : List SourceFile → List Line
  | [] => []
  | file :: files =>
    e.codeAll file.name file.commands ++ (e.afterAll file.commands).codeFiles files

/-- The code of commands in order, each with the name of its file. -/
def Emitter.codeUnits (e : Emitter) : List (String × Command) → List Line
  | [] => []
  | (file, c) :: units => e.code file c ++ (e.after c).codeUnits units

theorem Emitter.codeUnits_append (e : Emitter) (first second : List (String × Command)) :
    e.codeUnits (first ++ second) =
      e.codeUnits first ++ (e.afterAll (first.map Prod.snd)).codeUnits second := by
  induction first generalizing e with
  | nil => rfl
  | cons unit first ih => simp [codeUnits, ih]

theorem Emitter.codeUnits_file (e : Emitter) (file : String) (commands : List Command) :
    e.codeUnits (commands.map fun c => (file, c)) = e.codeAll file commands := by
  induction commands generalizing e with
  | nil => rfl
  | cons c commands ih => simp [codeUnits, codeAll, ih]

/-- The commands of files in one row, each with the name of its file. -/
def unitsOf (files : List SourceFile) : List (String × Command) :=
  files.flatMap fun file => file.commands.map fun c => (file.name, c)

theorem Emitter.codeFiles_eq_codeUnits (e : Emitter) (files : List SourceFile) :
    e.codeFiles files = e.codeUnits (unitsOf files) := by
  induction files generalizing e with
  | nil => rfl
  | cons file files ih =>
    rw [codeFiles, unitsOf, List.flatMap_cons, codeUnits_append, codeUnits_file, List.map_map, ih]
    simp [unitsOf, Function.comp_def]

/-! ### Commands in one row -/

/-- The function that commands belong to after a command. -/
def ownerAfter (owner : String) : Command → String
  | .function name _ => name
  | _ => owner

/-- The commands of a row with the functions that they belong to. -/
def placeUnits (owner : String) : List (String × Command) → List Placed
  | [] => []
  | (file, c) :: units => ⟨file, owner, c⟩ :: placeUnits (ownerAfter owner c) units

theorem function_after (e : Emitter) (c : Command) :
    (e.after c).function = ownerAfter e.function c := by
  cases c with
  | operate operator => cases operator <;> rfl
  | _ => rfl

@[simp] theorem length_placeUnits (owner : String) (units : List (String × Command)) :
    (placeUnits owner units).length = units.length := by
  induction units generalizing owner with
  | nil => rfl
  | cons unit units ih => simp [placeUnits, ih]

/-- A command of the row, with the history before it. -/
theorem getElem?_placeUnits (e : Emitter) (units : List (String × Command)) (i : Nat) :
    (placeUnits e.function units)[i]? = units[i]?.map fun (file, c) =>
      ⟨file, (e.afterAll ((units.take i).map Prod.snd)).function, c⟩ := by
  induction units generalizing e i with
  | nil => simp [placeUnits]
  | cons unit units ih =>
    cases i with
    | zero => simp [placeUnits]
    | succ i =>
      rw [placeUnits, List.getElem?_cons_succ, ← function_after, ih]
      simp

namespace Compilation

variable (k : Compilation)

/-- The history when nothing has been compiled. -/
def emitter : Emitter :=
  { annotate := k.annotate }

/-- The code before that of the first command. -/
def prologue : List Line :=
  if k.bootstrap then k.emitter.bootstrap else []

/-- The history before the first command. -/
def first : Emitter :=
  if k.bootstrap then k.emitter.afterBootstrap else k.emitter

/-- The code of the whole program. -/
def code : List Line :=
  k.prologue ++ k.first.codeFiles k.files

/-- The commands in one row, each with the name of its file. -/
def units : List (String × Command) :=
  unitsOf k.files

/-- The commands in one row, each with its file and its function. -/
def commands : List Placed :=
  placeUnits "" k.units

/-- The history before the command with an index. -/
def history (i : Nat) : Emitter :=
  k.first.afterAll ((k.units.take i).map Prod.snd)

/-- The address at which the code of the command with an index starts. -/
def address (i : Nat) : Nat :=
  instructionCount (k.prologue ++ k.first.codeUnits (k.units.take i))

variable {k} {i : Nat} {c : Placed}

theorem function_first : k.first.function = "" := by
  unfold first
  split <;> rfl

theorem units_of_command (h : k.commands[i]? = some c) :
    k.units[i]? = some (c.file, c.command) ∧ c.owner = (k.history i).function := by
  rw [commands, ← k.function_first, getElem?_placeUnits] at h
  obtain ⟨⟨file, command⟩, hunit, rfl⟩ := Option.map_eq_some_iff.1 h
  exact ⟨hunit, rfl⟩

theorem code_eq : k.code = k.prologue ++ k.first.codeUnits k.units := by
  rw [code, Emitter.codeFiles_eq_codeUnits]
  rfl

/-- The code of the program around the code of one command. -/
theorem code_split (h : k.commands[i]? = some c) :
    ∃ rest, k.code = (k.prologue ++ k.first.codeUnits (k.units.take i)) ++
      ((k.history i).note c.command.render ++ ((k.history i).body c.file c.command ++ rest)) := by
  have hunit := (units_of_command h).1
  obtain ⟨hlt, hget⟩ := List.getElem?_eq_some_iff.1 hunit
  have hsplit : k.units = k.units.take i ++ (c.file, c.command) :: k.units.drop (i + 1) := by
    rw [← hget, List.cons_getElem_drop_succ, List.take_append_drop]
  refine ⟨((k.history i).after c.command).codeUnits (k.units.drop (i + 1)), ?_⟩
  rw [code_eq]
  -- Only the whole row is split, not the part of it that is taken.
  nth_rewrite 1 [hsplit]
  rw [Emitter.codeUnits_append, Emitter.codeUnits, Emitter.code]
  simp [history]

theorem instructionCount_note (e : Emitter) (text : String) :
    instructionCount (e.note text) = 0 := by
  unfold Emitter.note
  split <;> rfl

/-- The code of a command ends where that of the next one starts. -/
theorem address_succ (h : k.commands[i]? = some c) :
    k.address (i + 1) =
      k.address i + instructionCount ((k.history i).body c.file c.command) := by
  have hunit := (units_of_command h).1
  have htake : k.units.take (i + 1) = k.units.take i ++ [(c.file, c.command)] := by
    rw [List.take_add_one, hunit]
    rfl
  rw [address, htake, Emitter.codeUnits_append]
  simp [address, Emitter.codeUnits, Emitter.code, instructionCount_note, history, Nat.add_assoc]

theorem address_mono {i j : Nat} (h : i ≤ j) : k.address i ≤ k.address j := by
  obtain ⟨d, rfl⟩ := Nat.exists_eq_add_of_le h
  rw [address, address, List.take_add, Emitter.codeUnits_append]
  simp only [instructionCount_append]
  omega

theorem address_length : k.address k.commands.length = instructionCount k.code := by
  rw [address, code_eq, commands, length_placeUnits, List.take_length]

theorem address_le_code (i : Nat) : k.address i ≤ instructionCount k.code := by
  rw [code_eq, ← List.take_append_drop i k.units, Emitter.codeUnits_append]
  simp only [instructionCount_append, address]
  simp

/-! ### Labels -/

/-- The name of a label in a function. -/
theorem isName_localLabel {owner label : String} (howner : owner = "" ∨ IsName owner)
    (hlabel : IsName label) : IsName (Symbol.localLabel owner label).name := by
  have htext : (Symbol.localLabel owner label).name.toList =
      owner.toList ++ '$' :: label.toList := by
    simp [Symbol.name]
  have hchars : ∀ d ∈ owner.toList, NameChar d := by
    rcases howner with rfl | howner
    · simp
    · exact howner.2
  refine ⟨?_, ?_⟩
  · -- Outside of any function a label starts with the mark, which is not a digit.
    rw [htext]
    rcases howner with rfl | howner
    · exact ⟨'$', rfl, by decide⟩
    · obtain ⟨d, hd, hdigit⟩ := howner.1
      exact ⟨d, List.mem_head?_append_of_mem_head? hd, hdigit⟩
  · intro d hd
    rw [htext] at hd
    rcases List.mem_append.1 hd with hd | hd
    · exact hchars d hd
    · rcases List.mem_cons.1 hd with rfl | hd
      · decide
      · exact hlabel.2 d hd

/-- Every label in the code of a command is a name. -/
theorem cleanLabels_body {e : Emitter} (howner : e.function = "" ∨ IsName e.function)
    (file : String) {c : Command} (hfits : c.Fits) : CleanLabels (e.body file c) := by
  intro s hs
  -- Only comparisons, labels, functions and calls have labels in their code.
  cases c with
  | push segment index =>
    cases segment <;>
      simp [Emitter.body, pushCode, pushConstant, pushIndexed, pushSymbol, pushD, Line.load,
        Line.set] at hs
  | pop segment index =>
    cases segment <;>
      simp [Emitter.body, popCode, popIndexed, popToD, popD, Line.load, Line.set] at hs
  | operate operator =>
    cases operator <;>
      simp [Emitter.body, operatorCode, binaryCode, unaryCode, compareCode, popD, pointAtTop,
        Line.load, Line.set, Line.jump] at hs
    all_goals
      rcases hs with rfl | rfl
      · exact isName_comparisonHolds _
      · exact isName_comparisonEnd _
  | label name =>
    obtain rfl : s = .localLabel e.function name := by simpa [Emitter.body] using hs
    exact isName_localLabel howner hfits
  | goto name => simp [Emitter.body, gotoCode, Line.jump] at hs
  | ifGoto name => simp [Emitter.body, ifGotoCode, popD, Line.load, Line.set, Line.jump] at hs
  | function name locals =>
    obtain rfl : s = .function name := by
      simpa [Emitter.body, functionCode, pushZero, Line.load, Line.set] using hs
    exact hfits
  | call name arguments =>
    obtain rfl : s = .returnPoint (e.calls + 1) := by
      simpa [Emitter.body, callCode, gotoCode, pushSymbol, pushD, Line.load, Line.set,
        Line.jump] using hs
    exact isName_returnPoint _
  | ret =>
    simp [Emitter.body, returnCode, restoreCode, popIndexed, popToD, popD, Line.load, Line.set,
      Line.jump] at hs

theorem cleanLabels_append {first second : List Line} (hfirst : CleanLabels first)
    (hsecond : CleanLabels second) : CleanLabels (first ++ second) := by
  intro s hs
  rcases List.mem_append.1 hs with hs | hs
  · exact hfirst s hs
  · exact hsecond s hs

theorem cleanLabels_note (e : Emitter) (text : String) : CleanLabels (e.note text) := by
  intro s hs
  unfold Emitter.note at hs
  split at hs <;> simp at hs

/-- The owner of labels is a name, or empty. -/
theorem owner_after {e : Emitter} (howner : e.function = "" ∨ IsName e.function) {c : Command}
    (hfits : c.Fits) : (e.after c).function = "" ∨ IsName (e.after c).function := by
  rw [function_after]
  cases c with
  | function name locals => exact .inr hfits
  | _ => exact howner

theorem owner_afterAll {e : Emitter} (howner : e.function = "" ∨ IsName e.function)
    {commands : List Command} (hfits : ∀ c ∈ commands, c.Fits) :
    (e.afterAll commands).function = "" ∨ IsName (e.afterAll commands).function := by
  induction commands generalizing e with
  | nil => exact howner
  | cons c commands ih =>
    exact ih (owner_after howner (hfits c (by simp)))
      fun c hc => hfits c (List.mem_cons_of_mem _ hc)

theorem cleanLabels_codeUnits {e : Emitter} (howner : e.function = "" ∨ IsName e.function)
    {units : List (String × Command)} (hfits : ∀ unit ∈ units, unit.2.Fits) :
    CleanLabels (e.codeUnits units) := by
  induction units generalizing e with
  | nil => exact fun s hs => absurd hs (by simp [Emitter.codeUnits])
  | cons unit units ih =>
    obtain ⟨file, c⟩ := unit
    have hc : c.Fits := hfits (file, c) (by simp)
    exact cleanLabels_append
      (cleanLabels_append (cleanLabels_note e _) (cleanLabels_body howner file hc))
      (ih (owner_after howner hc) fun unit hunit => hfits unit (List.mem_cons_of_mem _ hunit))

theorem cleanLabels_bootstrap {e : Emitter} (howner : e.function = "" ∨ IsName e.function) :
    CleanLabels e.bootstrap := by
  refine cleanLabels_append (cleanLabels_append (cleanLabels_note _ _) ?_) ?_
  · intro s hs
    simp [stackSetup, Line.set, Line.load] at hs
  · exact cleanLabels_body howner "" (c := .call entryFunction 0)
      (by decide : IsName entryFunction)

theorem cleanLabels_prologue : CleanLabels k.prologue := by
  unfold prologue
  split
  · exact cleanLabels_bootstrap (.inl rfl)
  · exact fun s hs => absurd hs (by simp)

theorem fits_of_mem_units (haccepted : ∀ file ∈ k.files, ∀ c ∈ file.commands, c.Accepted) :
    ∀ unit ∈ k.units, unit.2.Fits := by
  intro unit hunit
  obtain ⟨file, hfile, hmem⟩ := List.mem_flatMap.1 hunit
  obtain ⟨c, hc, rfl⟩ := List.mem_map.1 hmem
  exact (haccepted file hfile c hc).fits

/-- Every label in the code of a compilation is a name. -/
theorem cleanLabels_of_accepted
    (haccepted : ∀ file ∈ k.files, ∀ c ∈ file.commands, c.Accepted) : CleanLabels k.code := by
  rw [code_eq]
  exact cleanLabels_append cleanLabels_prologue
    (cleanLabels_codeUnits (.inl function_first) (fits_of_mem_units haccepted))

/-! ### Programs -/

/-- The code of a compilation, of commands that can be read, assembles to a program. -/
structure Loads (k : Compilation) (p : Program) : Prop where
  /-- Every command can be read. -/
  accepted : ∀ file ∈ k.files, ∀ c ∈ file.commands, c.Accepted
  /-- The code assembles. -/
  assembled : assemble (k.code.map Line.render) = .ok p

namespace Loads

variable {p : Program} (h : k.Loads p)

include h

theorem fits_units : ∀ unit ∈ k.units, unit.2.Fits :=
  fits_of_mem_units h.accepted

theorem fits (hc : k.commands[i]? = some c) : c.command.Fits :=
  h.fits_units _ (List.mem_of_getElem? (units_of_command hc).1)

theorem passes : Assembled (k.code.map Line.render) p :=
  assembled_of_ok h.assembled

theorem cleanLabels_code : CleanLabels k.code :=
  cleanLabels_of_accepted h.accepted

theorem namesRegisters : NamesRegisters p :=
  operand_load h.passes

theorem holds_code : p.Holds 0 k.code :=
  holds_of_assembled h.passes h.cleanLabels_code

/-- **The program holds the code of each command at its address.** -/
theorem holds (hc : k.commands[i]? = some c) :
    p.Holds (k.address i) ((k.history i).body c.file c.command) := by
  obtain ⟨rest, hsplit⟩ := code_split hc
  have hcode := h.holds_code
  rw [hsplit] at hcode
  -- The comment before the code takes up no address.
  have hblock := (Program.holds_append.1 (Program.holds_append.1 hcode).2).2
  rw [instructionCount_note, Nat.zero_add] at hblock
  exact (Program.holds_append.1 hblock).1

/-- The program ends where the code of the last command does. -/
theorem rom_end : p.rom[k.address k.commands.length]? = none := by
  rw [Array.getElem?_eq_none_iff, h.passes.size_rom h.cleanLabels_code, address_length]

theorem address_lt (i : Nat) : k.address i < 65536 :=
  (address_le_code i).trans_lt (instructionCount_lt_of_assembled h.passes h.cleanLabels_code)

theorem owner (i : Nat) : (k.history i).function = "" ∨ IsName (k.history i).function := by
  refine owner_afterAll (.inl function_first) fun c hc => ?_
  obtain ⟨unit, hunit, rfl⟩ := List.mem_map.1 hc
  exact h.fits_units unit (List.mem_of_mem_take hunit)

end Loads

end Compilation

/-! ### The compiler -/

/-- The commands of a source. -/
def SourceFile.ofSource (source : NamedSource) : SourceFile :=
  ⟨source.name, (Outline.of (.ok source.bytes)).commands.map Prod.snd⟩

theorem accepted_of_mem_commandsOfEvents {events : List Event} {number : Nat} {c : Command}
    (h : (number, c) ∈ (commandsOfEvents events).1) : c.Accepted := by
  fun_induction commandsOfEvents events with
  | case1 | case2 | case3 => simp at h
  | case4 number' text rest command hline commands error hrest ih =>
    rcases List.mem_cons.1 h with heq | hmem
    · obtain ⟨rfl, rfl⟩ := Prod.mk.inj heq
      exact ⟨text, ofNumberedLine_eq_ok_iff.1 hline⟩
    · exact ih (by rw [hrest]; exact hmem)

theorem compileSources_ok {e e' : Emitter} {sources : List NamedSource} {code : List Line}
    (h : compileSources e sources = .ok (code, e')) :
    code = e.codeFiles (sources.map SourceFile.ofSource) := by
  induction sources generalizing e e' code with
  | nil =>
    obtain ⟨rfl, -⟩ := Prod.mk.inj (Except.ok.inj h)
    rfl
  | cons source sources ih =>
    simp only [compileSources] at h
    split at h
    · simp at h
    · obtain ⟨⟨code', e''⟩, hrest, h⟩ := ok_of_bind h
      obtain ⟨rfl, -⟩ := Prod.mk.inj (Except.ok.inj h)
      rw [ih hrest]
      rfl

/-- **What the compiler gives is the code of its sources**, so a program assembled from it is
    loaded. -/
theorem loads_of_compileProgram {bootstrap annotate : Bool} {sources : List NamedSource}
    {lines : List Line} {p : Program} (h : compileProgram bootstrap annotate sources = .ok lines)
    (hp : assemble (lines.map Line.render) = .ok p) :
    (⟨bootstrap, annotate, sources.map SourceFile.ofSource⟩ : Compilation).Loads p := by
  have hlines : lines =
      (⟨bootstrap, annotate, sources.map SourceFile.ofSource⟩ : Compilation).code := by
    unfold compileProgram at h
    cases bootstrap with
    | false =>
      obtain ⟨⟨code, e⟩, hcode, h⟩ := ok_of_bind h
      obtain rfl : code = lines := Except.ok.inj h
      exact compileSources_ok hcode
    | true =>
      obtain ⟨⟨code, e⟩, hcode, h⟩ := ok_of_bind h
      obtain rfl := Except.ok.inj h
      rw [compileSources_ok hcode]
      rfl
  refine ⟨?_, hlines ▸ hp⟩
  intro file hfile c hc
  obtain ⟨source, -, rfl⟩ := List.mem_map.1 hfile
  obtain ⟨⟨number, c⟩, hmem, rfl⟩ := List.mem_map.1 hc
  exact accepted_of_mem_commandsOfEvents hmem

/-! ### A program -/

/-- Two files: the first calls two functions of the second and then goes round in circles. One of
    them doubles its argument by way of a local variable, the other one puts a number into a
    variable of the file and gives it back. -/
def doubling : Compilation where
  bootstrap := true
  annotate := true
  files := [
    ⟨"Sys", [.function "Sys.init" 0, .push .constant (-3), .call "Main.double" 1,
      .call "Main.seven" 0, .label "END", .goto "END"]⟩,
    ⟨"Main", [.function "Main.double" 1, .push .arguments 0, .pop .locals 0, .push .locals 0,
      .push .locals 0, .operate .add, .ret, .function "Main.seven" 0, .push .constant 7,
      .pop .statics 2, .push .statics 2, .ret]⟩]

/-- The program that it assembles to. -/
def doublingProgram : Program :=
  match assemble (doubling.code.map Line.render) with
  | .ok p => p
  | .error _ => ⟨#[], .predefined⟩

theorem doubling_loads : doubling.Loads doublingProgram := by
  -- A command is accepted if what is printed of it can be read back.
  have hread : ∀ file ∈ doubling.files, ∀ c ∈ file.commands,
      Command.ofLine c.render.toList = .ok c := by
    decide +kernel
  have hassemble : (assemble (doubling.code.map Line.render)).isOk := by
    decide +kernel
  obtain ⟨p, hp⟩ : ∃ p, assemble (doubling.code.map Line.render) = .ok p := by
    cases hp : assemble (doubling.code.map Line.render) with
    | error fault => simp [hp, Except.isOk, Except.toBool] at hassemble
    | ok p => exact ⟨p, rfl⟩
  have hprogram : doublingProgram = p := by
    unfold doublingProgram
    simp only [hp]
  exact ⟨fun file hfile c hc => ⟨_, hread file hfile c hc⟩, hprogram ▸ hp⟩

theorem doubling_resolved : Resolved doubling.commands :=
  ⟨by decide +kernel, by decide +kernel⟩

end HackVM.Codegen
