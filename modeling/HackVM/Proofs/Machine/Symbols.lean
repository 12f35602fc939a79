import HackVM.Proofs.Machine.Code

namespace HackVM.Machine

/-!
# Which programs assemble, and where their variables are

A program can be refused for three reasons: a label that is known already, too many instructions,
and too many variables.  This file says exactly when, and where the variables of a program that is
not refused are.

* `labelNames` and `usedNames` — the names that statements define and use;
* `Fresh` — no label is known already when it is defined;
* `foldlM_add_cases` — the first pass fails exactly if the labels are not fresh;
* `undefinedNames` — the names that are used and nowhere defined, in the order of their first use;
* `foldlM_place_ok` — the second pass gives them consecutive addresses, and `foldlM_place_fits` — it
  fails if there are too few;
* `assemble_labelTwice_iff`, `assemble_ok`, `exists_assemble_iff` and `assemble_variables` — both
  passes together.
-/

/-! ### Names of statements -/

/-- The name that a statement gives an address to. -/
def Statement.defined? : Statement → Option String
  | .label name => some name
  | _ => none

/-- The name whose address a statement loads. -/
def Statement.used? : Statement → Option String
  | .symbol name => some name
  | _ => none

/-- The names that statements define, in order. -/
def labelNames (program : List Statement) : List String :=
  program.filterMap Statement.defined?

/-- The names that statements use, in order. -/
def usedNames (program : List Statement) : List String :=
  program.filterMap Statement.used?

theorem mem_labelNames {program : List Statement} {name : String} :
    name ∈ labelNames program ↔ Statement.label name ∈ program := by
  rw [labelNames, List.mem_filterMap]
  constructor
  · rintro ⟨st, hst, hname⟩
    cases st with
    | label other =>
      obtain rfl : other = name := Option.some.inj hname
      exact hst
    | unclosed | number | symbol | compute => exact absurd hname (by simp [Statement.defined?])
  · exact fun hst => ⟨_, hst, rfl⟩

theorem mem_usedNames {program : List Statement} {name : String} :
    name ∈ usedNames program ↔ Statement.symbol name ∈ program := by
  rw [usedNames, List.mem_filterMap]
  constructor
  · rintro ⟨st, hst, hname⟩
    cases st with
    | symbol other =>
      obtain rfl : other = name := Option.some.inj hname
      exact hst
    | label | unclosed | number | compute => exact absurd hname (by simp [Statement.used?])
  · exact fun hst => ⟨_, hst, rfl⟩

/-- The names that are known before a program is read. -/
def SymbolTable.predefinedNames : List String :=
  (namedAddresses ++ registers).map Prod.fst

theorem find?_predefined_eq_none_iff {name : String} :
    SymbolTable.predefined.find? name = none ↔ name ∉ SymbolTable.predefinedNames := by
  have hall : ∀ name ∈ SymbolTable.predefinedNames,
      (SymbolTable.predefined.find? name).isSome = true := by
    decide +kernel
  constructor
  · intro hnone hmem
    simpa [hnone] using hall name hmem
  · intro hmem
    by_contra hfind
    exact hmem ((find?_insertAll_source hfind).resolve_left (by simp))

/-! ### Loops -/

section Loops

variable {σ α ε : Type} {f : σ → α → Except ε σ} {x : α} {xs : List α} {s : σ}

theorem foldlM_cons_of_ok {s' : σ} (h : f s x = .ok s') :
    (x :: xs).foldlM f s = xs.foldlM f s' := by
  rw [List.foldlM_cons, h]
  rfl

theorem foldlM_cons_of_error {e : ε} (h : f s x = .error e) : (x :: xs).foldlM f s = .error e := by
  rw [List.foldlM_cons, h]
  rfl

/-- The loop fails as some round does. -/
theorem foldlM_error {P : ε → Prop} (hround : ∀ {s x e}, f s x = .error e → P e) {e : ε}
    (h : xs.foldlM f s = .error e) : P e := by
  induction xs generalizing s with
  | nil => simp [pure, Except.pure] at h
  | cons x xs ih =>
    cases hfirst : f s x with
    | error e' =>
      rw [foldlM_cons_of_error hfirst] at h
      obtain rfl : e' = e := Except.error.inj h
      exact hround hfirst
    | ok s' =>
      rw [foldlM_cons_of_ok hfirst] at h
      exact ih h

end Loops

/-! ### The first pass -/

variable {program : List Statement}

/-- No label of the program is in the table, and none is defined twice. -/
def Fresh (t : SymbolTable) (program : List Statement) : Prop :=
  (labelNames program).Nodup ∧ ∀ name ∈ labelNames program, t.find? name = none

theorem fresh_cons_label {t : SymbolTable} {name : String} (address : Word) :
    Fresh t (.label name :: program) ↔
      t.find? name = none ∧ Fresh (t.insert name address) program := by
  have hnames : labelNames (.label name :: program) = name :: labelNames program := rfl
  unfold Fresh
  rw [hnames, List.nodup_cons, List.forall_mem_cons]
  constructor
  · rintro ⟨⟨hname, hnodup⟩, hnone, hall⟩
    refine ⟨hnone, hnodup, fun other hother => ?_⟩
    rw [SymbolTable.find?_insert, if_neg fun heq : name = other => hname (heq ▸ hother)]
    exact hall other hother
  · rintro ⟨hnone, hnodup, hall⟩
    -- A label that comes again would be found in the table with the first one entered.
    have hother : ∀ other ∈ labelNames program, name ≠ other ∧ t.find? other = none := by
      intro other hother
      have hfind := hall other hother
      rw [SymbolTable.find?_insert] at hfind
      by_cases hname : name = other
      · simp [hname] at hfind
      · exact ⟨hname, by simpa [hname] using hfind⟩
    exact ⟨⟨fun hmem => (hother name hmem).1 rfl, hnodup⟩, hnone, fun other h => (hother other h).2⟩

theorem fresh_cons_of_takesAddress {t : SymbolTable} {st : Statement} (h : st.takesAddress = true) :
    Fresh t (st :: program) ↔ Fresh t program := by
  cases st with
  | label name => simp [Statement.takesAddress] at h
  | unclosed | number | symbol | compute => exact Iff.rfl

/-- **The first pass succeeds if the labels are fresh, and finds a label twice if not**, as long as
    there are addresses enough. -/
theorem foldlM_add_cases {l : Labels} (hfits : l.address + addresses program < addressCount) :
    (Fresh l.symbols program ∧ ∃ l', program.foldlM Labels.add l = .ok l') ∨
      (¬ Fresh l.symbols program ∧
        ∃ name, program.foldlM Labels.add l = .error (.labelTwice name)) := by
  induction program generalizing l with
  | nil => exact .inl ⟨⟨List.nodup_nil, by simp [labelNames]⟩, l, rfl⟩
  | cons st program ih =>
    by_cases htakes : st.takesAddress = true
    · rw [addresses_cons, if_pos htakes] at hfits
      have hlt : l.address + 1 < addressCount := by omega
      have hadd : l.add st = .ok ⟨l.address + 1, l.symbols⟩ := by
        cases st with
        | label name => simp [Statement.takesAddress] at htakes
        | unclosed | number | symbol | compute => simp [Labels.add, hlt]
      rw [foldlM_cons_of_ok hadd, fresh_cons_of_takesAddress htakes]
      have hrest : l.address + 1 + addresses program < addressCount := by omega
      exact ih (l := ⟨l.address + 1, l.symbols⟩) hrest
    · obtain ⟨name, rfl⟩ : ∃ name, st = .label name := by
        cases st with
        | label name => exact ⟨name, rfl⟩
        | unclosed | number | symbol | compute => exact absurd rfl htakes
      rw [addresses_cons, if_neg htakes, Nat.zero_add] at hfits
      rw [fresh_cons_label (BitVec.ofNat 16 l.address)]
      cases hfind : l.symbols.find? name with
      | some v =>
        have hadd : l.add (.label name) = .error (.labelTwice name) := by
          simp [Labels.add, hfind]
        exact .inr ⟨by simp, name, foldlM_cons_of_error hadd⟩
      | none =>
        have hadd : l.add (.label name) =
            .ok ⟨l.address, l.symbols.insert name (BitVec.ofNat 16 l.address)⟩ := by
          simp [Labels.add, hfind]
        rw [foldlM_cons_of_ok hadd]
        simpa using ih (l := ⟨l.address, l.symbols.insert name (BitVec.ofNat 16 l.address)⟩) hfits

/-! ### The second pass -/

/-- The names that are used and not in the table, in the order of their first use. -/
def unknownNames (t : SymbolTable) (program : List Statement) : List String :=
  ((usedNames program).filter fun name => (t.find? name).isNone).eraseDups

theorem unknownNames_cons_known {t : SymbolTable} {name : String} {v : Word}
    (h : t.find? name = some v) :
    unknownNames t (.symbol name :: program) = unknownNames t program := by
  have hnames : usedNames (.symbol name :: program) = name :: usedNames program := rfl
  rw [unknownNames, hnames, List.filter_cons_of_neg (by simp [h])]
  rfl

/-- An unknown name comes first, and is known from then on. -/
theorem unknownNames_cons_unknown {t : SymbolTable} {name : String} (v : Word)
    (h : t.find? name = none) :
    unknownNames t (.symbol name :: program) = name :: unknownNames (t.insert name v) program := by
  have hnames : usedNames (.symbol name :: program) = name :: usedNames program := rfl
  rw [unknownNames, hnames, List.filter_cons_of_pos (by simp [h]), List.eraseDups_cons,
    List.filter_filter, unknownNames]
  congr 3
  funext other
  rw [SymbolTable.find?_insert]
  by_cases hname : name = other
  · simp [hname]
  · simp [hname, Ne.symm hname]

/-- **The second pass gives consecutive addresses to the unknown names**, in the order of their
    first use, if there are addresses enough. -/
theorem foldlM_place_ok {p : Placement}
    (hfits : p.nextVariable + (unknownNames p.symbols program).length < addressCount) :
    ∃ p', program.foldlM Placement.add p = .ok p' ∧
      ∀ k name, (unknownNames p.symbols program)[k]? = some name →
        p'.symbols.find? name = some (BitVec.ofNat 16 (p.nextVariable + k)) := by
  induction program generalizing p with
  | nil => exact ⟨p, rfl, by simp [unknownNames, usedNames]⟩
  | cons st program ih =>
    cases st with
    | label name | unclosed => exact ih hfits
    | number value =>
      exact ih (p := ⟨p.rom.push (.load value), p.symbols, p.nextVariable⟩) hfits
    | compute dest comp jump =>
      exact ih (p := ⟨p.rom.push (.compute dest comp jump), p.symbols, p.nextVariable⟩) hfits
    | symbol name =>
      cases hfind : p.symbols.find? name with
      | some v =>
        have hadd : p.add (.symbol name) =
            .ok ⟨p.rom.push (.load v), p.symbols, p.nextVariable⟩ := by
          simp [Placement.add, hfind]
        rw [foldlM_cons_of_ok hadd]
        rw [unknownNames_cons_known hfind] at hfits ⊢
        exact ih (p := ⟨p.rom.push (.load v), p.symbols, p.nextVariable⟩) hfits
      | none =>
        let v := BitVec.ofNat 16 p.nextVariable
        let p₁ : Placement :=
          ⟨p.rom.push (.load v), p.symbols.insert name v, p.nextVariable + 1⟩
        rw [unknownNames_cons_unknown v hfind] at hfits ⊢
        rw [List.length_cons] at hfits
        have hadd : p.add (.symbol name) = .ok p₁ := by
          have hlt : p.nextVariable + 1 < addressCount := by omega
          simp [Placement.add, hfind, hlt, p₁, v]
        have hrest : p₁.nextVariable + (unknownNames p₁.symbols program).length < addressCount := by
          show p.nextVariable + 1 + (unknownNames (p.symbols.insert name v) program).length < _
          omega
        obtain ⟨p', hplace, haddress⟩ := ih hrest
        rw [foldlM_cons_of_ok hadd]
        refine ⟨p', hplace, ?_⟩
        intro k other hk
        cases k with
        | zero =>
          obtain rfl : name = other := by simpa using hk
          apply foldlM_place_mono hplace
          show (p.symbols.insert name v).find? name = some v
          rw [SymbolTable.find?_insert, if_pos rfl]
        | succ k =>
          have hnext := haddress k other (by simpa using hk)
          rw [hnext]
          show some (BitVec.ofNat 16 (p.nextVariable + 1 + k)) = _
          rw [Nat.add_right_comm, Nat.add_assoc]

/-- One round allots an address to a name exactly if that takes the name from the unknown ones. -/
theorem Placement.add_unknownNames {p p' : Placement} {st : Statement} (h : p.add st = .ok p')
    (hp : p.nextVariable < addressCount) (program : List Statement) :
    p'.nextVariable + (unknownNames p'.symbols program).length =
        p.nextVariable + (unknownNames p.symbols (st :: program)).length ∧
      p'.nextVariable < addressCount := by
  cases st with
  | label name | unclosed | number value | compute dest comp jump =>
    simp only [Placement.add, Except.ok.injEq] at h
    subst h
    exact ⟨rfl, hp⟩
  | symbol name =>
    cases hfind : p.symbols.find? name with
    | some v =>
      simp only [Placement.add, hfind, Except.ok.injEq] at h
      subst h
      rw [unknownNames_cons_known hfind]
      exact ⟨rfl, hp⟩
    | none =>
      by_cases hlt : p.nextVariable + 1 < addressCount
      · simp only [Placement.add, hfind, hlt, if_true, Except.ok.injEq] at h
        subst h
        rw [unknownNames_cons_unknown (BitVec.ofNat 16 p.nextVariable) hfind, List.length_cons]
        exact ⟨Nat.add_right_comm .., hlt⟩
      · simp [Placement.add, hfind, hlt] at h

/-- **If the second pass succeeds**, there were addresses enough. -/
theorem foldlM_place_fits {p p' : Placement} (h : program.foldlM Placement.add p = .ok p')
    (hp : p.nextVariable < addressCount) :
    p.nextVariable + (unknownNames p.symbols program).length < addressCount := by
  -- What is allotted already and what is still unknown make up the same number all the time.
  have hend := foldlM_invariant_rest (P := fun rest q => q.nextVariable < addressCount ∧
    q.nextVariable + (unknownNames q.symbols rest).length =
      p.nextVariable + (unknownNames p.symbols program).length) ?_ h ⟨hp, rfl⟩
  · have hnone : unknownNames p'.symbols [] = [] := rfl
    rw [hnone, List.length_nil, Nat.add_zero] at hend
    omega
  · intro q st q' rest hadd ⟨hq, htotal⟩
    obtain ⟨hkeeps, hq'⟩ := Placement.add_unknownNames hadd hq rest
    exact ⟨hq', hkeeps.trans htotal⟩

/-- The second pass has one way to fail. -/
theorem foldlM_place_error {p : Placement} {fault : LoadFault}
    (h : program.foldlM Placement.add p = .error fault) : fault = .tooManyVariables := by
  refine foldlM_error (P := fun fault => fault = .tooManyVariables) ?_ h
  intro p st fault hadd
  cases st with
  | label | unclosed | number | compute => simp [Placement.add] at hadd
  | symbol name =>
    simp only [Placement.add] at hadd
    split at hadd
    · simp at hadd
    · split at hadd
      · simp at hadd
      · exact (Except.error.inj hadd).symm

/-! ### Both passes -/

/-- The names that a program uses and nowhere defines, in the order of their first use. -/
def undefinedNames (program : List Statement) : List String :=
  ((usedNames program).filter fun name =>
    name ∉ labelNames program ∧ name ∉ SymbolTable.predefinedNames).eraseDups

/-- After the first pass, the unknown names are those that are nowhere defined. -/
theorem unknownNames_eq_undefinedNames {l : Labels}
    (h : program.foldlM Labels.add ⟨0, .predefined⟩ = .ok l) :
    unknownNames l.symbols program = undefinedNames program := by
  have hknown : ∀ name, (l.symbols.find? name).isNone = true ↔
      name ∉ labelNames program ∧ name ∉ SymbolTable.predefinedNames := by
    intro name
    rw [Option.isNone_iff_eq_none, mem_labelNames, ← find?_predefined_eq_none_iff]
    constructor
    · intro hnone
      refine ⟨fun hmem => ?_, ?_⟩
      · obtain ⟨before, after, rfl⟩ := List.append_of_mem hmem
        have hlabel := foldlM_add_label h (by decide)
        simp [hnone] at hlabel
      · by_contra hpre
        obtain ⟨v, hv⟩ := Option.ne_none_iff_exists'.1 hpre
        have hstays := foldlM_add_mono h hv
        simp [hnone] at hstays
    · rintro ⟨hlabel, hpre⟩
      by_contra hfind
      exact (foldlM_add_source h hfind).elim (fun hfound => hfound hpre) hlabel
  unfold unknownNames undefinedNames
  congr 2
  funext name
  rw [Bool.eq_iff_iff, hknown, decide_eq_true_iff]

variable {lines : List String}

theorem assemble_of_bindLabels {t : SymbolTable} (h : bindLabels (statements lines) = .ok t) :
    assemble lines = (place t (statements lines)).map fun p => ⟨p.rom, p.symbols⟩ := by
  unfold assemble
  simp only [h]
  show place t (statements lines) >>= (fun p => pure (Program.mk p.rom p.symbols)) = _
  cases place t (statements lines) <;> rfl

/-- The first pass of the assembler, with what it leaves behind. -/
theorem bindLabels_cases (hfits : addresses (statements lines) < addressCount) :
    (Fresh .predefined (statements lines) ∧ ∃ l,
      (statements lines).foldlM Labels.add ⟨0, .predefined⟩ = .ok l ∧
        bindLabels (statements lines) = .ok l.symbols) ∨
    (¬ Fresh .predefined (statements lines) ∧
      ∃ name, bindLabels (statements lines) = .error (.labelTwice name)) := by
  have hzero : (Labels.mk 0 .predefined).address + addresses (statements lines) < addressCount := by
    simpa using hfits
  unfold bindLabels
  rcases foldlM_add_cases hzero with ⟨hfresh, l, hl⟩ | ⟨hfresh, name, herror⟩
  · exact .inl ⟨hfresh, l, hl, by rw [hl]; rfl⟩
  · exact .inr ⟨hfresh, name, by rw [herror]; rfl⟩

/-- **A label is found twice exactly if the labels are not fresh**, in a program that has an address
    for every instruction. -/
theorem assemble_labelTwice_iff (hfits : addresses (statements lines) < addressCount) :
    (∃ name, assemble lines = .error (.labelTwice name)) ↔
      ¬ Fresh .predefined (statements lines) := by
  rcases bindLabels_cases hfits with ⟨hfresh, l, -, hbind⟩ | ⟨hfresh, name, hbind⟩
  · refine ⟨fun ⟨name, herror⟩ => ?_, fun h => absurd hfresh h⟩
    -- The second pass never complains about a label.
    rw [assemble_of_bindLabels hbind] at herror
    cases hplace : place l.symbols (statements lines) with
    | ok p => simp [hplace, Except.map] at herror
    | error fault =>
      obtain rfl := foldlM_place_error hplace
      simp [hplace, Except.map] at herror
  · refine ⟨fun _ => hfresh, fun _ => ⟨name, ?_⟩⟩
    unfold assemble
    simp only [hbind]
    rfl

/-- **A program assembles** if its labels are fresh and there are addresses for its instructions and
    for its variables, and the variables get the addresses from the first one on, in the order of
    their first use. -/
theorem assemble_ok (hfits : addresses (statements lines) < addressCount)
    (hfresh : Fresh .predefined (statements lines))
    (hvariables : firstVariable + (undefinedNames (statements lines)).length < addressCount) :
    ∃ p, assemble lines = .ok p ∧
      ∀ k name, (undefinedNames (statements lines))[k]? = some name →
        p.symbols.find? name = some (BitVec.ofNat 16 (firstVariable + k)) := by
  rcases bindLabels_cases hfits with ⟨-, l, hfold, hbind⟩ | ⟨hnot, -⟩
  · rw [← unknownNames_eq_undefinedNames hfold] at hvariables ⊢
    obtain ⟨p, hplace, haddress⟩ :=
      foldlM_place_ok (p := ⟨#[], l.symbols, firstVariable⟩) hvariables
    refine ⟨⟨p.rom, p.symbols⟩, ?_, haddress⟩
    have hplace' : place l.symbols (statements lines) = .ok p := hplace
    rw [assemble_of_bindLabels hbind, hplace']
    rfl
  · exact absurd hfresh hnot

/-- **Which programs assemble**: those whose labels are fresh, and that have addresses for their
    instructions and for their variables. -/
theorem exists_assemble_iff :
    (∃ p, assemble lines = .ok p) ↔
      addresses (statements lines) < addressCount ∧ Fresh .predefined (statements lines) ∧
        firstVariable + (undefinedNames (statements lines)).length < addressCount := by
  constructor
  · rintro ⟨p, hp⟩
    have hfits := (assembled_of_ok hp).fits
    rcases bindLabels_cases hfits with ⟨hfresh, l, hfold, hbind⟩ | ⟨hnot, -⟩
    · rw [assemble_of_bindLabels hbind] at hp
      obtain ⟨placed, hplace, -⟩ := ok_of_map hp
      refine ⟨hfits, hfresh, ?_⟩
      rw [← unknownNames_eq_undefinedNames hfold]
      have hfirst : firstVariable < addressCount := by decide
      exact foldlM_place_fits hplace hfirst
    · obtain ⟨name, herror⟩ := (assemble_labelTwice_iff hfits).2 hnot
      rw [hp] at herror
      simp at herror
  · rintro ⟨hfits, hfresh, hvariables⟩
    obtain ⟨p, hp, -⟩ := assemble_ok hfits hfresh hvariables
    exact ⟨p, hp⟩

/-- **The variables of a program have words of their own**, from the first one for variables on. -/
theorem assemble_variables (hfits : addresses (statements lines) < addressCount)
    (hfresh : Fresh .predefined (statements lines))
    (hvariables : firstVariable + (undefinedNames (statements lines)).length < addressCount) :
    ∃ p, assemble lines = .ok p ∧
      (∀ name ∈ undefinedNames (statements lines),
        ∃ a, p.symbols.find? name = some a ∧ firstVariable ≤ a.toNat) ∧
      ∀ name ∈ undefinedNames (statements lines), ∀ other ∈ undefinedNames (statements lines),
        p.symbols.find? name = p.symbols.find? other → name = other := by
  obtain ⟨p, hp, haddress⟩ := assemble_ok hfits hfresh hvariables
  -- There are fewer variables than words, so that a word tells the place of its variable.
  have hplace : ∀ name ∈ undefinedNames (statements lines), ∃ k,
      (undefinedNames (statements lines))[k]? = some name ∧
        ∃ a, p.symbols.find? name = some a ∧ a.toNat = firstVariable + k := by
    intro name hname
    obtain ⟨k, hk⟩ := List.mem_iff_getElem?.1 hname
    refine ⟨k, hk, _, haddress k name hk, ?_⟩
    have hlt : k < (undefinedNames (statements lines)).length := (List.getElem?_eq_some_iff.1 hk).1
    have hword : firstVariable + k < 2 ^ 16 := (Nat.add_lt_add_left hlt _).trans hvariables
    rw [BitVec.toNat_ofNat]
    exact Nat.mod_eq_of_lt hword
  refine ⟨p, hp, ?_, ?_⟩
  · intro name hname
    obtain ⟨k, -, a, ha, hnat⟩ := hplace name hname
    exact ⟨a, ha, by omega⟩
  · intro name hname other hother heq
    obtain ⟨k, hk, a, ha, hnat⟩ := hplace name hname
    obtain ⟨k', hk', a', ha', hnat'⟩ := hplace other hother
    obtain rfl : a = a' := Option.some.inj (ha.symm.trans (heq.trans ha'))
    obtain rfl : k = k' := by omega
    exact Option.some.inj (hk.symm.trans hk')

end HackVM.Machine
