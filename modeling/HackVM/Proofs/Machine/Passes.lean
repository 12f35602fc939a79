import HackVM.Machine.Assemble
import HackVM.Proofs.Asm.Reading
import Mathlib.Data.List.Basic

namespace HackVM.Machine

/-!
# The two passes of the assembler

The first pass gives labels their addresses and the second lays the instructions down, each with a
loop of its own.  This file says what the loops leave behind, for every list of statements:

* `foldlM_invariant_rest`, `foldlM_invariant` and `foldlM_origin` — from one round of a loop to all
  of them;
* `Labels.add_ok` and `Placement.add_ok` — everything that one round can do;
* `foldlM_add_label` — a label stands for the number of addresses taken up before it;
* `foldlM_place_rom` — the instructions are those of the statements, in order, with every symbol
  looked up in the final table;
* `Assembled` — what a program that assembles looks like, and `assembled_of_ok` — it does.
-/

/-- A computation that succeeds has a first part that succeeds. -/
theorem ok_of_bind {ε α β : Type} {x : Except ε α} {f : α → Except ε β} {b : β}
    (h : x >>= f = .ok b) : ∃ a, x = .ok a ∧ f a = .ok b := by
  cases x with
  | error e => exact absurd h (by simp [bind, Except.bind])
  | ok a => exact ⟨a, rfl, h⟩

/-- A result that is made from another comes from one. -/
theorem ok_of_map {ε α β : Type} {x : Except ε α} {f : α → β} {b : β} (h : x.map f = .ok b) :
    ∃ a, x = .ok a ∧ f a = b := by
  cases x with
  | error e => exact absurd h (by simp [Except.map])
  | ok a => exact ⟨a, rfl, Except.ok.inj h⟩

/-! ### Loops -/

section Loops

variable {σ α ε : Type} {f : σ → α → Except ε σ} {xs : List α} {s s' : σ}

/-- What every round keeps, the loop keeps, also where it speaks of the rounds that are left. -/
theorem foldlM_invariant_rest {P : List α → σ → Prop}
    (hround : ∀ {s x s' xs}, f s x = .ok s' → P (x :: xs) s → P xs s')
    (h : xs.foldlM f s = .ok s') (hs : P xs s) : P [] s' := by
  induction xs generalizing s with
  | nil =>
    obtain rfl : s = s' := by simpa [pure, Except.pure] using h
    exact hs
  | cons x xs ih =>
    rw [List.foldlM_cons] at h
    obtain ⟨s₁, hfirst, hrest⟩ := ok_of_bind h
    exact ih hrest (hround hfirst hs)

/-- What every round keeps, the loop keeps. -/
theorem foldlM_invariant {P : σ → Prop} (hround : ∀ {s x s'}, f s x = .ok s' → P s → P s')
    (h : xs.foldlM f s = .ok s') (hs : P s) : P s' :=
  foldlM_invariant_rest (P := fun _ s => P s) hround h hs

/-- What the loop brings about, some round brings about. -/
theorem foldlM_origin {P : σ → Prop} {Q : α → Prop}
    (hround : ∀ {s x s'}, f s x = .ok s' → P s' → P s ∨ Q x)
    (h : xs.foldlM f s = .ok s') (hs' : P s') : P s ∨ ∃ x ∈ xs, Q x := by
  induction xs generalizing s with
  | nil =>
    obtain rfl : s = s' := by simpa [pure, Except.pure] using h
    exact .inl hs'
  | cons x xs ih =>
    rw [List.foldlM_cons] at h
    obtain ⟨s₁, hfirst, hrest⟩ := ok_of_bind h
    -- It is there after the first round, or comes about later.
    rcases ih hrest with hs₁ | ⟨y, hy, hQ⟩
    · exact (hround hfirst hs₁).imp_right fun hQ => ⟨x, List.mem_cons_self, hQ⟩
    · exact .inr ⟨y, List.mem_cons_of_mem _ hy, hQ⟩

end Loops

/-! ### The first pass -/

/-- Whether a statement takes up an address. -/
def Statement.takesAddress : Statement → Bool
  | .label _ => false
  | _ => true

/-- The number of addresses that statements take up. -/
def addresses (program : List Statement) : Nat :=
  program.countP Statement.takesAddress

@[simp] theorem addresses_nil : addresses [] = 0 := rfl

theorem addresses_cons (st : Statement) (program : List Statement) :
    addresses (st :: program) = (if st.takesAddress then 1 else 0) + addresses program := by
  rw [addresses, List.countP_cons, Nat.add_comm]
  rfl

theorem addresses_append (first second : List Statement) :
    addresses (first ++ second) = addresses first + addresses second :=
  List.countP_append

theorem Labels.add_ok {l l' : Labels} {st : Statement} (h : l.add st = .ok l') :
    (∃ name, st = .label name ∧ l.symbols.find? name = none ∧
      l' = ⟨l.address, l.symbols.insert name (BitVec.ofNat 16 l.address)⟩) ∨
    (st.takesAddress = true ∧ l.address + 1 < addressCount ∧ l' = ⟨l.address + 1, l.symbols⟩) := by
  cases st with
  | label name =>
    cases hfind : l.symbols.find? name with
    | some v => simp [Labels.add, hfind] at h
    | none =>
      simp only [Labels.add, hfind, Except.ok.injEq] at h
      exact .inl ⟨name, rfl, hfind, h.symm⟩
  | unclosed | number | symbol | compute =>
    by_cases hlt : l.address + 1 < addressCount
    · simp only [Labels.add, hlt, if_true, Except.ok.injEq] at h
      exact .inr ⟨rfl, hlt, h.symm⟩
    · simp [Labels.add, hlt] at h

variable {program : List Statement}

theorem foldlM_add_address {l l' : Labels} (h : program.foldlM Labels.add l = .ok l')
    (hl : l.address < addressCount) :
    l'.address = l.address + addresses program ∧ l'.address < addressCount := by
  induction program generalizing l with
  | nil =>
    obtain rfl : l = l' := by simpa [pure, Except.pure] using h
    exact ⟨by simp, hl⟩
  | cons st program ih =>
    rw [List.foldlM_cons] at h
    obtain ⟨l₁, hadd, hrest⟩ := ok_of_bind h
    rw [addresses_cons]
    rcases Labels.add_ok hadd with ⟨name, rfl, -, rfl⟩ | ⟨htakes, hlt, rfl⟩
    · simpa [Statement.takesAddress] using ih hrest hl
    · obtain ⟨haddr, hbound⟩ := ih hrest hlt
      exact ⟨by rw [htakes, haddr]; simp; omega, hbound⟩

/-- What is in the table stays as it is: a label that is known already is refused. -/
theorem foldlM_add_mono {l l' : Labels} (h : program.foldlM Labels.add l = .ok l') {name : String}
    {v : Word} (hfind : l.symbols.find? name = some v) : l'.symbols.find? name = some v := by
  refine foldlM_invariant (P := fun l => l.symbols.find? name = some v) ?_ h hfind
  intro l st l' hadd hfind
  rcases Labels.add_ok hadd with ⟨name', rfl, hnone, rfl⟩ | ⟨-, -, rfl⟩
  · -- The new label is another one, since it was not known.
    have hne : name' ≠ name := by
      rintro rfl
      simp [hnone] at hfind
    rw [SymbolTable.find?_insert, if_neg hne, hfind]
  · exact hfind

/-- **A label stands for the address after it**: the number of addresses taken up before. -/
theorem foldlM_add_label {l l' : Labels} {before after : List Statement} {name : String}
    (h : (before ++ .label name :: after).foldlM Labels.add l = .ok l')
    (hl : l.address < addressCount) :
    l'.symbols.find? name = some (BitVec.ofNat 16 (l.address + addresses before)) := by
  rw [List.foldlM_append] at h
  obtain ⟨l₁, hbefore, h⟩ := ok_of_bind h
  rw [List.foldlM_cons] at h
  obtain ⟨l₂, hadd, hafter⟩ := ok_of_bind h
  -- Up to the label, addresses are counted; after it, its entry stays.
  have haddr := (foldlM_add_address hbefore hl).1
  rcases Labels.add_ok hadd with ⟨name', heq, -, rfl⟩ | ⟨htakes, -, -⟩
  · obtain rfl : name = name' := by simpa using heq
    apply foldlM_add_mono hafter
    rw [SymbolTable.find?_insert, if_pos rfl, haddr]
  · simp [Statement.takesAddress] at htakes

/-- Every symbol of the table was in it before or is a label. -/
theorem foldlM_add_source {l l' : Labels} (h : program.foldlM Labels.add l = .ok l') {name : String}
    (hfind : l'.symbols.find? name ≠ none) :
    l.symbols.find? name ≠ none ∨ Statement.label name ∈ program := by
  have horigin := foldlM_origin (P := fun l => l.symbols.find? name ≠ none)
    (Q := fun st => st = .label name) ?_ h hfind
  · simpa using horigin
  · intro l st l' hadd hfind
    rcases Labels.add_ok hadd with ⟨name', rfl, -, rfl⟩ | ⟨-, -, rfl⟩
    · by_cases hname : name' = name
      · exact .inr (by rw [hname])
      · rw [SymbolTable.find?_insert, if_neg hname] at hfind
        exact .inl hfind
    · exact .inl hfind

/-! ### The second pass -/

/-- The instruction of a statement, with its symbol looked up in a table. -/
def Statement.instruction? (t : SymbolTable) : Statement → Option Instruction
  | .label _ | .unclosed => none
  | .number value => some (.load value)
  | .symbol name => some (.load ((t.find? name).getD 0))
  | .compute dest comp jump => some (.compute dest comp jump)

theorem Placement.add_ok {p p' : Placement} {st : Statement} (h : p.add st = .ok p') :
    ((∀ name, st ≠ .symbol name) ∧ p'.symbols = p.symbols ∧
      p'.rom.toList = p.rom.toList ++ (st.instruction? p.symbols).toList) ∨
    (∃ name v, st = .symbol name ∧ p'.rom.toList = p.rom.toList ++ [.load v] ∧
      p'.symbols.find? name = some v ∧
      (∀ other w, p.symbols.find? other = some w → p'.symbols.find? other = some w) ∧
      ∀ other, p'.symbols.find? other ≠ none → p.symbols.find? other ≠ none ∨ other = name) := by
  cases st with
  | label name | unclosed =>
    simp only [Placement.add, Except.ok.injEq] at h
    subst h
    exact .inl ⟨by simp, rfl, by simp [Statement.instruction?]⟩
  | number value | compute dest comp jump =>
    simp only [Placement.add, Except.ok.injEq] at h
    subst h
    exact .inl ⟨by simp, rfl, by simp [Statement.instruction?]⟩
  | symbol name =>
    cases hfind : p.symbols.find? name with
    | some v =>
      simp only [Placement.add, hfind, Except.ok.injEq] at h
      subst h
      exact .inr ⟨name, v, rfl, by simp, hfind, fun _ _ h => h, fun _ h => .inl h⟩
    | none =>
      -- An unknown symbol becomes a variable, at the next free address.
      by_cases hlt : p.nextVariable + 1 < addressCount
      · simp only [Placement.add, hfind, hlt, if_true, Except.ok.injEq] at h
        subst h
        refine .inr ⟨name, BitVec.ofNat 16 p.nextVariable, rfl, by simp,
          by simp [SymbolTable.find?_insert], ?_, ?_⟩
        · intro other w hother
          have hne : name ≠ other := by
            rintro rfl
            simp [hfind] at hother
          simpa [SymbolTable.find?_insert, hne] using hother
        · intro other hother
          by_cases hname : name = other
          · exact .inr hname.symm
          · rw [SymbolTable.find?_insert, if_neg hname] at hother
            exact .inl hother
      · simp [Placement.add, hfind, hlt] at h

/-- What is in the table stays as it is: a variable is allotted only to an unknown symbol. -/
theorem foldlM_place_mono {p p' : Placement} (h : program.foldlM Placement.add p = .ok p')
    {name : String} {v : Word} (hfind : p.symbols.find? name = some v) :
    p'.symbols.find? name = some v := by
  refine foldlM_invariant (P := fun p => p.symbols.find? name = some v) ?_ h hfind
  intro p st p' hadd hfind
  rcases Placement.add_ok hadd with ⟨-, hsym, -⟩ | ⟨_, _, -, -, -, hmono, -⟩
  · rw [hsym, hfind]
  · exact hmono name v hfind

theorem instruction?_eq_of_ne_symbol {st : Statement} (h : ∀ name, st ≠ .symbol name)
    (t t' : SymbolTable) : st.instruction? t = st.instruction? t' := by
  cases st with
  | symbol name => exact absurd rfl (h name)
  | _ => rfl

/-- **The instructions are those of the statements**, each with its symbol looked up in the final
    table, also where the symbol was still unknown when its first use was placed. -/
theorem foldlM_place_rom {p p' : Placement} (h : program.foldlM Placement.add p = .ok p') :
    p'.rom.toList = p.rom.toList ++ program.filterMap (Statement.instruction? p'.symbols) := by
  induction program generalizing p with
  | nil =>
    obtain rfl : p = p' := by simpa [pure, Except.pure] using h
    simp
  | cons st program ih =>
    rw [List.foldlM_cons] at h
    obtain ⟨p₁, hadd, hrest⟩ := ok_of_bind h
    rw [ih hrest]
    rcases Placement.add_ok hadd with ⟨hne, -, hrom⟩ | ⟨name, v, rfl, hrom, hfind, -, -⟩
    · rw [hrom, instruction?_eq_of_ne_symbol hne p.symbols p'.symbols, List.filterMap_cons]
      cases st.instruction? p'.symbols <;> simp
    · -- The address that the symbol has now is the one in the final table.
      have hfinal := foldlM_place_mono hrest hfind
      rw [hrom, List.filterMap_cons]
      simp [Statement.instruction?, hfinal]

/-- Every symbol that a statement names is in the final table. -/
theorem foldlM_place_known {p p' : Placement} (h : program.foldlM Placement.add p = .ok p')
    {name : String} (hmem : Statement.symbol name ∈ program) :
    ∃ v, p'.symbols.find? name = some v := by
  obtain ⟨before, after, rfl⟩ := List.append_of_mem hmem
  rw [List.foldlM_append] at h
  obtain ⟨p₁, -, h⟩ := ok_of_bind h
  rw [List.foldlM_cons] at h
  obtain ⟨p₂, hadd, hrest⟩ := ok_of_bind h
  rcases Placement.add_ok hadd with ⟨hne, -, -⟩ | ⟨name', v, heq, -, hfind, -, -⟩
  · exact absurd rfl (hne name)
  · obtain rfl : name = name' := by simpa using heq
    exact ⟨v, foldlM_place_mono hrest hfind⟩

/-- Every symbol of the final table was in the table before or is named by a statement. -/
theorem foldlM_place_source {p p' : Placement} (h : program.foldlM Placement.add p = .ok p')
    {name : String} (hfind : p'.symbols.find? name ≠ none) :
    p.symbols.find? name ≠ none ∨ Statement.symbol name ∈ program := by
  have horigin := foldlM_origin (P := fun p => p.symbols.find? name ≠ none)
    (Q := fun st => st = .symbol name) ?_ h hfind
  · simpa using horigin
  · intro p st p' hadd hfind
    rcases Placement.add_ok hadd with ⟨-, hsym, -⟩ | ⟨name', v, rfl, -, -, -, hsource⟩
    · exact .inl (hsym ▸ hfind)
    · exact (hsource name hfind).imp_right fun hname => by rw [hname]

/-! ### Both passes -/

/-- What assembling a list of lines leaves behind. -/
structure Assembled (lines : List String) (p : Program) : Prop where
  /-- There is an address for every instruction. -/
  fits : addresses (statements lines) < addressCount
  /-- A label stands for the number of addresses taken up before it. -/
  label : ∀ before name after, statements lines = before ++ .label name :: after →
    p.symbols.find? name = some (BitVec.ofNat 16 (addresses before))
  /-- The instructions are those of the statements. -/
  rom : p.rom.toList = (statements lines).filterMap (Statement.instruction? p.symbols)
  /-- The symbols that are known beforehand keep their addresses. -/
  predefined : ∀ name v, SymbolTable.predefined.find? name = some v →
    p.symbols.find? name = some v
  /-- Every symbol is known beforehand, or a label, or named by an address line. -/
  source : ∀ name, p.symbols.find? name ≠ none → SymbolTable.predefined.find? name ≠ none ∨
    Statement.label name ∈ statements lines ∨ Statement.symbol name ∈ statements lines
  /-- Every symbol that an address line names is known. -/
  known : ∀ name, Statement.symbol name ∈ statements lines → ∃ v, p.symbols.find? name = some v

theorem assembled_of_ok {lines : List String} {p : Program} (h : assemble lines = .ok p) :
    Assembled lines p := by
  obtain ⟨labels, hbind, h⟩ := ok_of_bind h
  obtain ⟨placed, hplace, h⟩ := ok_of_bind h
  obtain rfl : (⟨placed.rom, placed.symbols⟩ : Program) = p := by
    simpa [pure, Except.pure] using h
  obtain ⟨l, hfold, rfl⟩ := ok_of_map hbind
  have hzero : (0 : Nat) < addressCount := by decide
  obtain ⟨haddr, hbound⟩ := foldlM_add_address hfold hzero
  refine ⟨by simpa [haddr] using hbound, ?_, ?_, ?_, ?_, ?_⟩
  · -- The second pass starts from the table of the first and does not change it.
    intro before name after hsplit
    rw [hsplit] at hfold
    have hlabel := foldlM_add_label hfold hzero
    rw [Nat.zero_add] at hlabel
    exact foldlM_place_mono hplace hlabel
  · simpa using foldlM_place_rom hplace
  · intro name v hfind
    exact foldlM_place_mono hplace (foldlM_add_mono hfold hfind)
  · intro name hfind
    rcases foldlM_place_source hplace hfind with hl | hmem
    · rcases foldlM_add_source hfold hl with hpre | hmem
      · exact .inl hpre
      · exact .inr (.inl hmem)
    · exact .inr (.inr hmem)
  · intro name hmem
    exact foldlM_place_known hplace hmem

end HackVM.Machine
