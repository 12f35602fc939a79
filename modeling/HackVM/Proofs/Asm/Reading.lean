import HackVM.Asm.Line
import HackVM.Machine.Statement
import HackVM.Proofs.Text.Bare
import HackVM.Proofs.Vm.Sentence

namespace HackVM.Machine

open Asm

/-!
# How the assembler reads compiled code

The compiler writes lines and the assembler reads text.  This file says what the assembler makes
of each kind of line, so that nothing after it has to look at characters.

* `statement?` — the statement of one line, if it has one; `statements` collects them;
* `statement?_comment`, `statement?_label`, `statement?_number`, `statement?_symbol`,
  `statement?_compute` — the statement of each kind of line;
* `statement?_static` — a variable of a source file whose name holds no `//` is read as itself;
* `statement?_paren` and `statement?_address` — a line that opens a parenthesis never becomes an
  instruction, and every address line is read as a number or a symbol, whatever its name.
-/

/-- The statement of a line, unless the line is blank or a comment. -/
def statement? (line : String) : Option Statement :=
  match Text.bare line.toList with
  | [] => none
  | text => some (.ofText text)

theorem statements_eq_filterMap (lines : List String) :
    statements lines = lines.filterMap statement? := by
  induction lines with
  | nil => rfl
  | cons line lines ih =>
    rw [List.filterMap_cons, ← ih]
    cases hbare : Text.bare line.toList <;> simp [statements, statement?, hbare]

theorem statements_append (first second : List String) :
    statements (first ++ second) = statements first ++ statements second := by
  simp only [statements_eq_filterMap, List.filterMap_append]

theorem statements_singleton (line : String) : statements [line] = (statement? line).toList := by
  rw [statements_eq_filterMap]
  cases h : statement? line <;> simp [h]

theorem statements_cons (line : String) (lines : List String) :
    statements (line :: lines) = (statement? line).toList ++ statements lines := by
  rw [← statements_singleton, ← statements_append]
  rfl

theorem statement?_of_bare {line : String} {text : List Char} (h : Text.bare line.toList = text)
    (hne : text ≠ []) : statement? line = some (.ofText text) := by
  cases text with
  | nil => exact absurd rfl hne
  | cons c cs => simp [statement?, h]

/-! ### Names -/

theorem not_isBlank_of_nameChar {c : Char} (h : NameChar c) : ¬ Text.isBlank c := by
  -- Blank characters are told by their numbers, so name characters are turned into numbers, too.
  have hnat : c.toNat = 36 ∨ c.toNat = 46 ∨ c.toNat = 58 ∨ c.toNat = 95 ∨
      (48 ≤ c.toNat ∧ c.toNat ≤ 57) ∨ (65 ≤ c.toNat ∧ c.toNat ≤ 90) ∨
      (97 ≤ c.toNat ∧ c.toNat ≤ 122) := by
    rcases h with h | h | h
    · have h' : (65 ≤ c.toNat ∧ c.toNat ≤ 90) ∨ (97 ≤ c.toNat ∧ c.toNat ≤ 122) := by
        change (decide (c.val ≥ 'A'.val ∧ c.val ≤ 'Z'.val) ||
          (decide (c.val ≥ 'a'.val) && decide (c.val ≤ 'z'.val))) = true at h
        simpa [UInt32.le_iff_toNat_le] using h
      tauto
    · have h' : 48 ≤ c.toNat ∧ c.toNat ≤ 57 := by
        simpa [Char.isDigit, UInt32.le_iff_toNat_le] using h
      tauto
    · simp only [List.mem_cons, List.not_mem_nil, or_false] at h
      rcases h with rfl | rfl | rfl | rfl <;> decide
  simp only [Text.isBlank, Bool.or_eq_true, Bool.and_eq_true, decide_eq_true_eq, beq_iff_eq]
  omega

theorem not_slash_mem_of_isName {name : String} (h : IsName name) : '/' ∉ name.toList :=
  fun hmem => absurd (h.2 '/' hmem) (by unfold NameChar; decide)

/-- A text with a character that is neither a digit nor a sign is no number. -/
theorem readNumber?_eq_none_of_mem {cs : List Char} {c : Char} (hc : c ∈ cs)
    (hdigit : ¬ c.isDigit) (hplus : c ≠ '+') : readNumber? cs = none := by
  have hall : ∀ ds : List Char, c ∈ ds → ds.all Char.isDigit = false := by
    intro ds hds
    rw [List.all_eq_false]
    exact ⟨c, hds, by simpa using hdigit⟩
  unfold readNumber?
  split
  · rename_i rest
    have hrest : c ∈ rest := (List.mem_cons.1 hc).resolve_left hplus
    simp [guard, hall rest hrest, failure]
  · simp [guard, hall cs hc, failure]

theorem readNumber?_eq_none_of_isName {name : String} (h : IsName name) :
    readNumber? name.toList = none := by
  obtain ⟨⟨c, hc, hdigit⟩, hall⟩ := h
  have hmem : c ∈ name.toList := List.mem_of_head? hc
  -- The first character of a name is enough to tell it from a number.
  refine readNumber?_eq_none_of_mem hmem hdigit ?_
  rintro rfl
  exact absurd (hall '+' hmem) (by unfold NameChar; decide)

/-! ### Comments and labels -/

theorem statement?_comment (text : String) : statement? (Line.comment text).render = none := by
  have htext : (Line.comment text).render.toList = '/' :: '/' :: ' ' :: text.toList := by
    simp [Line.render]
  have hbare : Text.bare (Line.comment text).render.toList = [] := by
    rw [htext, Text.bare, Text.beforeComment_slash_slash, Text.trim_nil]
  simp [statement?, hbare]

theorem statement?_label {s : Symbol} (h : IsName s.name) :
    statement? (Line.label s).render = some (.label s.name) := by
  have htext : (Line.label s).render.toList = '(' :: (s.name.toList ++ [')']) := by
    simp [Line.render]
  have hbare : Text.bare (Line.label s).render.toList = '(' :: (s.name.toList ++ [')']) := by
    rw [htext]
    refine Text.bare_eq_self (Text.not_slashes_infix_of_not_mem ?_) ?_ ?_
    · simpa using not_slash_mem_of_isName h
    · simp [Text.isBlank]
    · simp [Text.isBlank, List.getLast?_cons]
  rw [statement?_of_bare hbare (by simp)]
  simp [Statement.ofText]

theorem render_label (s : Symbol) :
    (Line.label s).render = String.ofList ('(' :: (s.name.toList ++ [')'])) := by
  apply String.toList_inj.1
  simp [Line.render]

/-- Whatever follows a parenthesis, the line is a label or is not closed. -/
theorem statement?_paren (text : List Char) :
    (∃ name, statement? (String.ofList ('(' :: text)) = some (.label name)) ∨
      statement? (String.ofList ('(' :: text)) = some .unclosed := by
  have hbare : Text.bare (String.ofList ('(' :: text)).toList =
      '(' :: Text.trimEnd (Text.beforeComment text) := by
    rw [String.toList_ofList]
    exact Text.bare_cons (by decide) (by decide) text
  rw [statement?_of_bare hbare (by simp)]
  unfold Statement.ofText
  by_cases hlast : (Text.trimEnd (Text.beforeComment text)).getLast? = some ')'
  · exact .inl ⟨_, by simp only [hlast, if_true]; rfl⟩
  · exact .inr (by simp only [hlast, if_false])

/-! ### Address lines -/

/-- What an address instruction can load. -/
def Statement.IsAddress : Statement → Prop
  | .number _ | .symbol _ => True
  | _ => False

/-- The reading of a text that follows an `@`. -/
theorem ofText_at (text : List Char) :
    Statement.ofText ('@' :: text) =
      match readNumber? text with
      | some value => .number value
      | none => .symbol (String.ofList text) := by
  rfl

/-- Whatever follows an `@`, the line is an address instruction. -/
theorem statement?_at (text : List Char) :
    ∃ st, statement? (String.ofList ('@' :: text)) = some st ∧ st.IsAddress := by
  have hbare : Text.bare (String.ofList ('@' :: text)).toList
      = '@' :: Text.trimEnd (Text.beforeComment text) := by
    rw [String.toList_ofList]
    exact Text.bare_cons (by decide) (by decide) text
  refine ⟨_, statement?_of_bare hbare (by simp), ?_⟩
  rw [ofText_at]
  cases readNumber? (Text.trimEnd (Text.beforeComment text)) <;> trivial

theorem render_symbol (s : Symbol) :
    (Line.symbol s).render = String.ofList ('@' :: s.name.toList) := by
  apply String.toList_inj.1
  simp [Line.render]

/-- A symbol that has no comment in it, does not end blank and is no number is read as itself. -/
theorem statement?_symbol_of {s : Symbol} (hslash : ¬ ['/', '/'] <:+: s.name.toList)
    (hlast : ∀ c ∈ s.name.toList.getLast?, ¬ Text.isBlank c)
    (hnumber : readNumber? s.name.toList = none) :
    statement? (Line.symbol s).render = some (.symbol s.name) := by
  have hbare : Text.bare (Line.symbol s).render.toList = '@' :: s.name.toList := by
    rw [render_symbol, String.toList_ofList]
    refine Text.bare_eq_self ?_ (by simp [Text.isBlank]) ?_
    · rw [List.infix_cons_iff]
      rintro (hpre | hinf)
      · exact absurd (List.cons.inj hpre.choose_spec).1 (by decide)
      · exact hslash hinf
    · -- The last character is that of the symbol, or the `@` if the symbol is empty.
      intro c hc
      rw [List.getLast?_cons] at hc
      cases hname : s.name.toList.getLast? with
      | none =>
        obtain rfl : '@' = c := by simpa [hname] using hc
        decide
      | some d =>
        obtain rfl : d = c := by simpa [hname] using hc
        exact hlast d hname
  rw [statement?_of_bare hbare (by simp), ofText_at, hnumber, String.ofList_toList]

theorem statement?_symbol {s : Symbol} (h : IsName s.name) :
    statement? (Line.symbol s).render = some (.symbol s.name) := by
  refine statement?_symbol_of (Text.not_slashes_infix_of_not_mem (not_slash_mem_of_isName h)) ?_
    (readNumber?_eq_none_of_isName h)
  intro c hc
  exact not_isBlank_of_nameChar (h.2 c (List.mem_of_getLast? hc))

/-! ### Numbers and variables -/

/-- The digits of a number are read back, if 16 bits hold it. -/
theorem readNumber?_decimal (n : Nat) :
    readNumber? (Text.decimal n) = if n < 65536 then some (BitVec.ofNat 16 n) else none := by
  have hall : (Text.decimal n).all Char.isDigit = true := by
    rw [List.all_eq_true]
    exact fun c hc => Text.isDigit_of_mem_decimal hc
  have hne := Text.decimal_ne_nil n
  have hvalue := Text.digitsValue_decimal n
  unfold readNumber?
  split
  · -- Digits do not start with a plus sign.
    rename_i rest heq
    exact absurd (List.all_eq_true.1 hall '+' (by simp [heq])) (by decide)
  · by_cases hn : n < 65536
    · simp [guard, hne, hall, hvalue, hn]
    · simp [guard, hne, hall, hvalue, hn, failure]

theorem render_number (n : Nat) :
    (Line.number n).render = String.ofList ('@' :: Text.decimal n) := by
  apply String.toList_inj.1
  simp [Line.render, Text.decimal]

theorem statement?_number {n : Nat} (h : n < 65536) :
    statement? (Line.number n).render = some (.number (BitVec.ofNat 16 n)) := by
  have hdigit : ∀ c ∈ Text.decimal n, NameChar c :=
    fun c hc => .inr (.inl (Text.isDigit_of_mem_decimal hc))
  have hbare : Text.bare (Line.number n).render.toList = '@' :: Text.decimal n := by
    rw [render_number, String.toList_ofList]
    refine Text.bare_eq_self (Text.not_slashes_infix_of_not_mem ?_) (by simp [Text.isBlank]) ?_
    · intro hmem
      rcases List.mem_cons.1 hmem with heq | hmem
      · exact absurd heq (by decide)
      · exact absurd (Text.isDigit_of_mem_decimal hmem) (by decide)
    · intro c hc
      rcases List.mem_cons.1 (List.mem_of_getLast? hc) with rfl | hmem
      · decide
      · exact not_isBlank_of_nameChar (hdigit c hmem)
  rw [statement?_of_bare hbare (by simp), ofText_at, readNumber?_decimal, if_pos h]

theorem toList_static (file : String) (index : UInt16) :
    (Symbol.static file index).name.toList = file.toList ++ '.' :: Text.decimal index.toNat := by
  simp [Symbol.name, Text.decimal]

/-- Another character in between keeps two slashes apart. -/
theorem slashes_infix_append_cons {c : Char} (hc : c ≠ '/') {before after : List Char}
    (h : ['/', '/'] <:+: before ++ c :: after) :
    ['/', '/'] <:+: before ∨ ['/', '/'] <:+: after := by
  induction before with
  | nil =>
    rcases List.infix_cons_iff.1 h with hpre | hinf
    · exact absurd (List.cons.inj hpre.choose_spec).1.symm hc
    · exact .inr hinf
  | cons d before ih =>
    rcases List.infix_cons_iff.1 h with hpre | hinf
    · -- The pair is at the very start, so the second slash is in `before` as well.
      obtain ⟨rest, hrest⟩ := hpre
      obtain ⟨rfl, htail⟩ := List.cons.inj hrest
      cases before with
      | nil => exact absurd (List.cons.inj htail).1.symm hc
      | cons e before =>
        obtain rfl : '/' = e := (List.cons.inj htail).1
        exact .inl (List.IsPrefix.isInfix ⟨before, rfl⟩)
    · exact (ih hinf).imp_left fun hbefore => List.infix_cons_iff.2 (.inr hbefore)

/-- A variable of a file whose name holds no `//` is read as itself: the point before its index
    keeps it from being a number. -/
theorem statement?_static {file : String} (h : ¬ ['/', '/'] <:+: file.toList) (index : UInt16) :
    statement? (Line.symbol (.static file index)).render
      = some (.symbol (Symbol.static file index).name) := by
  have hlast : ∀ c ∈ (Symbol.static file index).name.toList.getLast?, c.isDigit := by
    intro c hc
    rw [toList_static, List.getLast?_append_cons] at hc
    -- The index has a digit at least, and the last of them ends the name.
    obtain ⟨d, hd⟩ := Option.ne_none_iff_exists'.1
      (mt List.getLast?_eq_none_iff.1 (Text.decimal_ne_nil index.toNat))
    rw [List.getLast?_cons, hd] at hc
    obtain rfl : d = c := by simpa using hc
    exact Text.isDigit_of_mem_decimal (List.mem_of_getLast? hd)
  refine statement?_symbol_of ?_ ?_ ?_
  · rw [toList_static]
    rintro hinf
    rcases slashes_infix_append_cons (by decide) hinf with hfile | hdigits
    · exact h hfile
    · have hmem : '/' ∈ Text.decimal index.toNat := hdigits.subset (by simp)
      exact absurd (Text.isDigit_of_mem_decimal hmem) (by decide)
  · intro c hc
    exact not_isBlank_of_nameChar (.inr (.inl (hlast c hc)))
  · rw [toList_static]
    exact readNumber?_eq_none_of_mem (c := '.') (by simp) (by decide) (by decide)

/-- Every address line is an address instruction, whatever its symbol is called. -/
theorem statement?_address (line : Line) (h : (∃ n, line = .number n) ∨ ∃ s, line = .symbol s) :
    ∃ st, statement? line.render = some st ∧ st.IsAddress := by
  rcases h with ⟨n, rfl⟩ | ⟨s, rfl⟩
  · rw [render_number]
    exact statement?_at _
  · rw [render_symbol]
    exact statement?_at _

/-! ### Computations -/

theorem splitFirst?_append {c : Char} {before : List Char} (h : c ∉ before) (after : List Char) :
    splitFirst? c (before ++ c :: after) = some (before, after) := by
  have hall : ∀ d ∈ before, decide (d ≠ c) = true := by
    intro d hd
    simpa using fun heq : d = c => h (heq ▸ hd)
  have hdrop : (before ++ c :: after).dropWhile (· ≠ c) = c :: after := by
    rw [List.dropWhile_append_of_pos hall]
    simp
  have htake : (before ++ c :: after).takeWhile (· ≠ c) = before := by
    rw [List.takeWhile_append_of_pos hall]
    simp
  simp only [splitFirst?, hdrop, htake]

theorem splitFirst?_eq_none {c : Char} {cs : List Char} (h : c ∉ cs) : splitFirst? c cs = none := by
  have hdrop : cs.dropWhile (· ≠ c) = [] := by
    rw [List.dropWhile_eq_nil_iff]
    intro d hd
    simpa using fun heq : d = c => h (heq ▸ hd)
  simp only [splitFirst?, hdrop]

theorem readComputation_spelling (comp : Computation) :
    readComputation comp.spelling = .ok comp := by
  cases comp with
  | value x | negate x | complement x => cases x <;> rfl
  | add x y | subtract x y | and x y | or x y => cases x <;> cases y <;> rfl

/-- The characters that computations, destinations and jumps are spelled with. -/
def spellingChars : List Char :=
  "AMD01+-&|!JGTEQLNP".toList

theorem mem_spellingChars_of_mem_destination {dest : Destination} {c : Char}
    (h : c ∈ dest.spelling) : c ∈ spellingChars := by
  obtain ⟨toA, toD, toM⟩ := dest
  have hall : ∀ toA toD toM,
      (Destination.mk toA toD toM).spelling.all (· ∈ spellingChars) = true := by
    decide
  exact of_decide_eq_true (List.all_eq_true.1 (hall toA toD toM) c h)

theorem mem_spellingChars_of_mem_computation {comp : Computation} {c : Char}
    (h : c ∈ comp.spelling) : c ∈ spellingChars := by
  have hoperand : ∀ x : Operand, x.char ∈ spellingChars := by
    intro x
    cases x <;> decide
  cases comp <;>
    simp only [Computation.spelling, List.mem_cons, List.not_mem_nil, or_false] at h <;>
    rcases h with rfl | rfl | rfl <;> first | exact hoperand _ | decide

theorem mem_spellingChars_of_mem_jump {jump : Jump} {c : Char} (h : c ∈ jump.name.toList) :
    c ∈ spellingChars := by
  have hall : jump.name.toList.all (· ∈ spellingChars) = true := by
    cases jump <;> decide
  exact of_decide_eq_true (List.all_eq_true.1 hall c h)

/-- A compute instruction without its jump. -/
def spellStore (dest : Destination) (comp : Computation) : List Char :=
  (if dest = Destination.nowhere then [] else dest.spelling ++ ['=']) ++ comp.spelling

theorem mem_spellStore {dest : Destination} {comp : Computation} {c : Char}
    (h : c ∈ spellStore dest comp) : c = '=' ∨ c ∈ spellingChars := by
  unfold spellStore at h
  rcases List.mem_append.1 h with h | h
  · split at h
    · simp at h
    · rcases List.mem_append.1 h with h | h
      · exact .inr (mem_spellingChars_of_mem_destination h)
      · exact .inl (List.mem_singleton.1 h)
  · exact .inr (mem_spellingChars_of_mem_computation h)

theorem mem_spellCompute {dest : Destination} {comp : Computation} {jump : Option Jump} {c : Char}
    (h : c ∈ spellCompute dest comp jump) : c = '=' ∨ c = ';' ∨ c ∈ spellingChars := by
  rcases List.mem_append.1 h with h | h
  · exact (mem_spellStore h).imp_right .inr
  · cases jump with
    | none => simp at h
    | some j =>
      rcases List.mem_cons.1 h with rfl | h
      · exact .inr (.inl rfl)
      · exact .inr (.inr (mem_spellingChars_of_mem_jump h))

/-- A text that starts with neither a parenthesis nor an `@` is a compute instruction. -/
theorem ofText_eq_ofCompute {text : List Char} (hparen : text.head? ≠ some '(')
    (hat : text.head? ≠ some '@') : Statement.ofText text = Statement.ofCompute text := by
  unfold Statement.ofText
  split
  · simp at hparen
  · simp at hat
  · rfl

/-- The destination and the computation are told apart by the `=` between them. -/
theorem splitFirst?_spellStore (dest : Destination) (comp : Computation) :
    splitFirst? '=' (spellStore dest comp) =
      if dest = .nowhere then none else some (dest.spelling, comp.spelling) := by
  by_cases hdest : dest = .nowhere
  · have hstore : spellStore dest comp = comp.spelling := by simp [spellStore, hdest]
    rw [if_pos hdest, hstore]
    exact splitFirst?_eq_none fun h => absurd (mem_spellingChars_of_mem_computation h) (by decide)
  · have hstore : spellStore dest comp = dest.spelling ++ '=' :: comp.spelling := by
      simp [spellStore, hdest]
    rw [if_neg hdest, hstore]
    exact splitFirst?_append
      (fun h => absurd (mem_spellingChars_of_mem_destination h) (by decide)) _

/-- The jump is told apart from the rest by the `;` before it. -/
theorem splitFirst?_spellCompute (dest : Destination) (comp : Computation) (jump : Option Jump) :
    splitFirst? ';' (spellCompute dest comp jump) =
      jump.map fun j => (spellStore dest comp, j.name.toList) := by
  have hsemi : ';' ∉ spellStore dest comp := fun h => absurd (mem_spellStore h) (by decide)
  cases jump with
  | none =>
    have hspell : spellCompute dest comp none = spellStore dest comp := by
      simp [spellCompute, spellStore]
    rw [hspell, splitFirst?_eq_none hsemi]
    rfl
  | some j => exact splitFirst?_append hsemi j.name.toList

theorem ofCompute_spellCompute (dest : Destination) (comp : Computation) (jump : Option Jump) :
    Statement.ofCompute (spellCompute dest comp jump)
      = .compute dest (.ok comp) (jump.map .ok) := by
  have hsplit := splitFirst?_spellCompute dest comp jump
  have hstore := splitFirst?_spellStore dest comp
  have hcomp := readComputation_spelling comp
  have hplain : spellCompute dest comp none = spellStore dest comp := by
    simp [spellCompute, spellStore]
  -- Without a destination there is no `=`, and without a jump no `;`: four ways to spell.
  by_cases hdest : dest = .nowhere
  · have hnowhere : spellStore dest comp = comp.spelling := by simp [spellStore, hdest]
    rw [if_pos hdest, hnowhere] at hstore
    cases jump with
    | none =>
      rw [hplain, hnowhere] at hsplit ⊢
      simp only [Statement.ofCompute, hsplit, Option.map_none, hstore, hcomp]
      rw [hdest]
    | some j =>
      simp only [Statement.ofCompute, hsplit, Option.map_some, hnowhere, hstore, hcomp, readJump,
        String.ofList_toList, Jump.ofName?_name]
      rw [hdest]
  · rw [if_neg hdest] at hstore
    cases jump with
    | none =>
      rw [hplain] at hsplit ⊢
      simp only [Statement.ofCompute, hsplit, Option.map_none, hstore, hcomp,
        Destination.ofLetters_spelling]
    | some j =>
      simp only [Statement.ofCompute, hsplit, Option.map_some, hstore, hcomp, readJump,
        String.ofList_toList, Jump.ofName?_name, Destination.ofLetters_spelling]

/-- A compute instruction is read back, and nothing in it can fault. -/
theorem statement?_compute (dest : Destination) (comp : Computation) (jump : Option Jump) :
    statement? (Line.compute dest comp jump).render
      = some (.compute dest (.ok comp) (jump.map .ok)) := by
  -- None of its characters means anything before the instruction is taken apart.
  have hchars : ∀ c ∈ spellCompute dest comp jump,
      ¬ Text.isBlank c ∧ c ≠ '/' ∧ c ≠ '(' ∧ c ≠ '@' := by
    intro c hc
    have hall : ('=' :: ';' :: spellingChars).all
        (fun c => ¬ Text.isBlank c ∧ c ≠ '/' ∧ c ≠ '(' ∧ c ≠ '@') = true := by decide
    exact of_decide_eq_true (List.all_eq_true.1 hall c (by simpa using mem_spellCompute hc))
  have hbare : Text.bare (Line.compute dest comp jump).render.toList
      = spellCompute dest comp jump := by
    rw [Line.render, String.toList_ofList]
    refine Text.bare_eq_self (Text.not_slashes_infix_of_not_mem ?_) ?_ ?_
    · exact fun hc => (hchars _ hc).2.1 rfl
    · exact fun c hc => (hchars c (List.mem_of_head? hc)).1
    · exact fun c hc => (hchars c (List.mem_of_getLast? hc)).1
  have hne : spellCompute dest comp jump ≠ [] := by
    have hcomp : comp.spelling ≠ [] := by cases comp <;> simp [Computation.spelling]
    simp [spellCompute, hcomp]
  rw [statement?_of_bare hbare hne,
    ofText_eq_ofCompute (fun hc => (hchars _ (List.mem_of_head? hc)).2.2.1 rfl)
      (fun hc => (hchars _ (List.mem_of_head? hc)).2.2.2 rfl), ofCompute_spellCompute]

/-! ### The names in a program -/

/-- The name that a statement gives an address to, or whose address it loads. -/
def Statement.name? : Statement → Option String
  | .label name | .symbol name => some name
  | _ => none

theorem name?_ofCompute (text : List Char) : (Statement.ofCompute text).name? = none := by
  unfold Statement.ofCompute
  split
  split <;> rfl

theorem infix_of_name?_ofText {text : List Char} {name : String}
    (h : (Statement.ofText text).name? = some name) : name.toList <:+: text := by
  unfold Statement.ofText at h
  split at h
  · -- A label without its parentheses.
    split at h
    · obtain rfl := Option.some.inj h
      rw [String.toList_ofList]
      exact (List.dropLast_prefix _).isInfix.trans (List.suffix_cons _ _).isInfix
    · simp [Statement.name?] at h
  · split at h
    · simp [Statement.name?] at h
    · obtain rfl := Option.some.inj h
      rw [String.toList_ofList]
      exact (List.suffix_cons _ _).isInfix
  · rw [name?_ofCompute] at h
    simp at h

/-- No name in a program has a comment in it. -/
theorem not_slashes_infix_of_mem_statements {lines : List String} {st : Statement} {name : String}
    (hmem : st ∈ statements lines) (hname : st.name? = some name) :
    ¬ ['/', '/'] <:+: name.toList := by
  obtain ⟨text, htext, rfl⟩ := List.mem_map.1 hmem
  obtain ⟨line, -, rfl⟩ := List.mem_map.1 (List.mem_of_mem_filter htext)
  exact fun h => Text.not_slashes_infix_bare _ (h.trans (infix_of_name?_ofText hname))

end HackVM.Machine
