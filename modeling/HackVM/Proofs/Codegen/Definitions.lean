import HackVM.Proofs.Asm.Names
import HackVM.Proofs.Codegen.Layout

namespace HackVM

open Asm Machine

/-!
# The symbols that code defines and refers to

* `definitions` and `references` — the symbols that lines define and refer to, in order;
* `labelNames_statements` — what the assembler reads as labels is what the code defines;
* `Emitter.defines` — the symbols that a command defines, and `definitions_body` — that is what its
  code defines;
* `Emitter.refers` — the symbols other than registers that a command refers to, and
  `foreignReferences_body` — that is what its code refers to.
-/

namespace Asm

/-- The symbol that a line defines. -/
def Line.defined? : Line → Option Symbol
  | .label s => some s
  | _ => none

/-- The symbol that a line refers to. -/
def Line.referred? : Line → Option Symbol
  | .symbol s => some s
  | _ => none

/-- The symbols that lines define, in order. -/
def definitions (lines : List Line) : List Symbol :=
  lines.filterMap Line.defined?

/-- The symbols that lines refer to, in order. -/
def references (lines : List Line) : List Symbol :=
  lines.filterMap Line.referred?

@[simp] theorem definitions_append (first second : List Line) :
    definitions (first ++ second) = definitions first ++ definitions second :=
  List.filterMap_append

@[simp] theorem references_append (first second : List Line) :
    references (first ++ second) = references first ++ references second :=
  List.filterMap_append

theorem mem_definitions {lines : List Line} {s : Symbol} :
    s ∈ definitions lines ↔ Line.label s ∈ lines := by
  rw [definitions, List.mem_filterMap]
  constructor
  · rintro ⟨line, hline, hs⟩
    cases line with
    | label other =>
      obtain rfl : other = s := Option.some.inj hs
      exact hline
    | comment | number | symbol | compute => exact absurd hs (by simp [Line.defined?])
  · exact fun hline => ⟨_, hline, rfl⟩

theorem mem_references {lines : List Line} {s : Symbol} :
    s ∈ references lines ↔ Line.symbol s ∈ lines := by
  rw [references, List.mem_filterMap]
  constructor
  · rintro ⟨line, hline, hs⟩
    cases line with
    | symbol other =>
      obtain rfl : other = s := Option.some.inj hs
      exact hline
    | comment | label | number | compute => exact absurd hs (by simp [Line.referred?])
  · exact fun hline => ⟨_, hline, rfl⟩

theorem mem_definitions_flatten {blocks : List (List Line)} {s : Symbol} :
    s ∈ definitions blocks.flatten ↔ ∃ block ∈ blocks, s ∈ definitions block := by
  simp only [mem_definitions, List.mem_flatten]

theorem mem_references_flatten {blocks : List (List Line)} {s : Symbol} :
    s ∈ references blocks.flatten ↔ ∃ block ∈ blocks, s ∈ references block := by
  simp only [mem_references, List.mem_flatten]

end Asm

/-- A line that loads an address defines nothing, whatever its symbol looks like. -/
theorem defined?_of_address {line : Line}
    (h : (∃ n, line = .number n) ∨ ∃ s, line = .symbol s) :
    (statement? line.render).bind Statement.defined? = none := by
  obtain ⟨st, hst, haddress⟩ := statement?_address line h
  rw [hst]
  cases st with
  | number | symbol => rfl
  | label | unclosed | compute => exact haddress.elim

/-- **The labels of a program are what its code defines.** -/
theorem labelNames_statements {lines : List Line} (h : CleanLabels lines) :
    labelNames (statements (lines.map Line.render)) = (definitions lines).map Symbol.name := by
  rw [statements_eq_filterMap, List.filterMap_map, labelNames, List.filterMap_filterMap,
    definitions, List.map_filterMap]
  apply List.filterMap_congr
  intro line hline
  show (statement? line.render).bind Statement.defined? = line.defined?.map Symbol.name
  cases line with
  | comment text =>
    rw [statement?_comment]
    rfl
  | label s =>
    rw [statement?_label (h s hline)]
    rfl
  | number n => exact defined?_of_address (.inl ⟨n, rfl⟩)
  | symbol s => exact defined?_of_address (.inr ⟨s, rfl⟩)
  | compute dest comp jump =>
    rw [statement?_compute]
    rfl

/-- There is an address for every instruction. -/
theorem addresses_lt_of_instructionCount_le {lines : List Line} (h : CleanLabels lines)
    (hcount : instructionCount lines ≤ 65535) :
    addresses (statements (lines.map Line.render)) < addressCount := by
  rw [← instructionCount_eq_addresses h]
  exact Nat.lt_succ_of_le hcount

namespace Codegen

/-! ### Blocks -/

/-- The symbols of an operator; the number is that of a comparison. -/
def comparisonSymbols (number : Nat) (operator : Operator) : List Symbol :=
  if (comparison? operator).isSome then [.comparisonHolds number, .comparisonEnd number] else []

theorem isGenerated_of_mem_comparisonSymbols {number : Nat} {operator : Operator} {s : Symbol}
    (h : s ∈ comparisonSymbols number operator) : s.isGenerated = true := by
  unfold comparisonSymbols at h
  split at h
  · rcases List.mem_pair.1 h with rfl | rfl <;> rfl
  · exact absurd h List.not_mem_nil

/-- The symbols that a command defines, in order. -/
def Emitter.defines (e : Emitter) : Command → List Symbol
  | .operate operator => comparisonSymbols (e.comparisons + 1) operator
  | .label name => [.localLabel e.function name]
  | .function name _ => [.function name]
  | .call .. => [.returnPoint (e.calls + 1)]
  | _ => []

/-- What is collected from lines, and not from a zero that is pushed, is in the entry of a function
    all in its label. -/
theorem map_functionCode {α : Type} {f : List Line → List α} (hnil : f [] = [])
    (happend : ∀ first second, f (first ++ second) = f first ++ f second) (hzero : f pushZero = [])
    (name : String) (locals : UInt16) :
    f (functionCode name locals) = f [.label (.function name)] := by
  have hzeros : ∀ n, f (List.replicate n pushZero).flatten = [] := by
    intro n
    induction n with
    | zero => exact hnil
    | succ n ih => rw [List.replicate_succ, List.flatten_cons, happend, ih, hzero, List.append_nil]
  rw [functionCode, ← List.singleton_append, happend, hzeros, List.append_nil]

theorem definitions_body (e : Emitter) (file : String) (c : Command) :
    definitions (e.body file c) = e.defines c := by
  cases c with
  | push segment index => cases segment <;> rfl
  | pop segment index => cases segment <;> rfl
  | operate operator => cases operator <;> rfl
  | label | goto | ifGoto | call | ret => rfl
  | function name locals => exact map_functionCode rfl definitions_append rfl name locals

/-- The symbols other than registers that a command of a file refers to, in order. -/
def Emitter.refers (e : Emitter) (file : String) : Command → List Symbol
  | .push .statics index => [.static file (indexOf index.toInt)]
  | .pop .statics index => [.static file index]
  | .operate operator => comparisonSymbols (e.comparisons + 1) operator
  | .goto name | .ifGoto name => [.localLabel e.function name]
  | .call name _ => [.returnPoint (e.calls + 1), .function name]
  | _ => []

/-- The symbols other than registers that lines refer to, in order. -/
def foreignReferences (lines : List Line) : List Symbol :=
  (references lines).filter fun s => s.family ≠ .predefined

@[simp] theorem foreignReferences_append (first second : List Line) :
    foreignReferences (first ++ second) = foreignReferences first ++ foreignReferences second := by
  rw [foreignReferences, references_append, List.filter_append]
  rfl

theorem mem_foreignReferences {lines : List Line} {s : Symbol} :
    s ∈ foreignReferences lines ↔ s ∈ references lines ∧ s.family ≠ .predefined := by
  rw [foreignReferences, List.mem_filter, decide_eq_true_iff]

theorem foreignReferences_body (e : Emitter) (file : String) (c : Command) :
    foreignReferences (e.body file c) = e.refers file c := by
  cases c with
  | push segment index => cases segment <;> rfl
  | pop segment index => cases segment <;> rfl
  | operate operator => cases operator <;> rfl
  | label | goto | ifGoto | call | ret => rfl
  | function name locals => exact map_functionCode rfl foreignReferences_append rfl name locals

/-- A command refers to no generated symbols but those that it defines. -/
theorem mem_defines_of_mem_refers {e : Emitter} {file : String} {c : Command} {s : Symbol}
    (h : s ∈ e.refers file c) (hs : s.isGenerated = true) : s ∈ e.defines c := by
  cases c with
  | push segment index =>
    cases segment <;> simp [Emitter.refers] at h
    subst h
    exact absurd hs Bool.false_ne_true
  | pop segment index =>
    cases segment <;> simp [Emitter.refers] at h
    subst h
    exact absurd hs Bool.false_ne_true
  | operate operator => exact h
  | label | function | ret => exact absurd h List.not_mem_nil
  | goto name | ifGoto name =>
    obtain rfl := List.mem_singleton.1 h
    exact absurd hs Bool.false_ne_true
  | call name arguments =>
    rcases List.mem_cons.1 h with rfl | h
    · exact List.mem_singleton_self _
    · obtain rfl := List.mem_singleton.1 h
      exact absurd hs Bool.false_ne_true

end Codegen

end HackVM
