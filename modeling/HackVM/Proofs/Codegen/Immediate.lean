import HackVM.Proofs.Codegen.Session
import HackVM.Proofs.Codegen.Simulation
import HackVM.Proofs.Vm.Rendering

namespace HackVM

open Asm

/-!
# Numbers in address instructions

An address instruction has room for a number of 15 bits.  The reader keeps the index of a push or a
pop in that range, but not the number of arguments of a call, to which the size of the frame is
added.  This file finds the numbers in the text of the code, and says which of them are too large.

* `LoadsNumeral text n` — the text is an `@` and a decimal numeral for `n`;
* `immediates` — the numbers that lines load, and `exists_loadsNumeral_iff` — they are the numerals
  in the text, since no symbol looks like one;
* `immediatesOf` — the numbers of a command, and `immediates_body` — its code loads just
  these;
* `immediates_fit_iff` — they fit, unless the command is a call with too many arguments.
-/

/-- The text is an `@` and a decimal numeral. -/
def LoadsNumeral (text : String) (n : Nat) : Prop :=
  ∃ digits, text.toList = '@' :: digits ∧ Numeral digits n

namespace Asm

/-! ### Numerals in the text -/

/-- The number that a line loads. -/
def Line.immediate? : Line → Option Nat
  | .number n => some n
  | _ => none

/-- The numbers that lines load, in order. -/
def immediates (lines : List Line) : List Nat :=
  lines.filterMap Line.immediate?

@[simp] theorem immediates_append (first second : List Line) :
    immediates (first ++ second) = immediates first ++ immediates second :=
  List.filterMap_append

theorem mem_immediates {lines : List Line} {n : Nat} :
    n ∈ immediates lines ↔ Line.number n ∈ lines := by
  rw [immediates, List.mem_filterMap]
  constructor
  · rintro ⟨line, hline, hn⟩
    cases line with
    | number m =>
      obtain rfl : m = n := Option.some.inj hn
      exact hline
    | comment | label | symbol | compute => exact absurd hn (by simp [Line.immediate?])
  · exact fun hline => ⟨_, hline, rfl⟩

/-- Lines refer to functions only by names. -/
def FunctionsNamed (lines : List Line) : Prop :=
  ∀ name, Symbol.function name ∈ references lines → IsName name

/-- The name of a symbol has something in it that is no digit, if it is not a function with a name
    that is none. -/
theorem Symbol.exists_not_isDigit {s : Symbol} (h : ∀ name, s = .function name → IsName name) :
    ∃ c ∈ s.name.toList, ¬ c.isDigit := by
  cases s with
  | register r =>
    obtain ⟨c, hc, hdigit⟩ := (Machine.isName_register r).1
    exact ⟨c, List.mem_of_head? hc, hdigit⟩
  | comparisonHolds | comparisonEnd | returnPoint =>
    rw [toList_of_numbered? rfl]
    exact ⟨'_', by simp, by decide⟩
  | function name =>
    obtain ⟨c, hc, hdigit⟩ := (h name rfl).1
    exact ⟨c, List.mem_of_head? hc, hdigit⟩
  | localLabel owner label =>
    rw [toList_localLabel]
    exact ⟨'$', by simp, by decide⟩
  | static file index =>
    rw [Machine.toList_static]
    exact ⟨'.', by simp, by decide⟩

/-- The text of a line that loads a number is that number's numeral, and no other. -/
theorem loadsNumeral_number {m n : Nat} : LoadsNumeral (Line.number m).render n ↔ m = n := by
  constructor
  · rintro ⟨digits, htext, -, -, rfl⟩
    rw [Machine.render_number, String.toList_ofList] at htext
    obtain rfl := (List.cons.inj htext).2
    exact (Text.digitsValue_decimal m).symm
  · rintro rfl
    exact ⟨Text.decimal m, by rw [Machine.render_number, String.toList_ofList], numeral_decimal m⟩

/-- **Only lines that load a number look like it.** -/
theorem loadsNumeral_render {line : Line} {n : Nat}
    (hnamed : ∀ name, line = .symbol (.function name) → IsName name) :
    LoadsNumeral line.render n ↔ line = .number n := by
  cases line with
  | number m => rw [loadsNumeral_number, Line.number.injEq]
  | comment text =>
    refine iff_of_false ?_ (by simp)
    rintro ⟨digits, htext, -⟩
    simp [Line.render] at htext
  | label s =>
    refine iff_of_false ?_ (by simp)
    rintro ⟨digits, htext, -⟩
    simp [Line.render] at htext
  | symbol s =>
    refine iff_of_false ?_ (by simp)
    rintro ⟨digits, htext, -, hdigits, -⟩
    obtain ⟨c, hc, hdigit⟩ := s.exists_not_isDigit fun name hs => hnamed name (hs ▸ rfl)
    rw [Machine.render_symbol, String.toList_ofList] at htext
    obtain rfl := (List.cons.inj htext).2
    exact hdigit (hdigits c hc)
  | compute dest comp jump =>
    refine iff_of_false ?_ (by simp)
    rintro ⟨digits, htext, -⟩
    -- No `@` is among the characters that computations are spelled with.
    have hat : '@' ∈ spellCompute dest comp jump := by
      rw [Line.render, String.toList_ofList] at htext
      simp [htext]
    exact absurd (Machine.mem_spellCompute hat) (by decide)

/-- **The numerals in the text of lines** are those of the numbers that they load. -/
theorem exists_loadsNumeral_iff {lines : List Line} (h : FunctionsNamed lines) {n : Nat} :
    (∃ text ∈ lines.map Line.render, LoadsNumeral text n) ↔ n ∈ immediates lines := by
  rw [mem_immediates]
  constructor
  · rintro ⟨text, htext, hn⟩
    obtain ⟨line, hline, rfl⟩ := List.mem_map.1 htext
    have hnamed : ∀ name, line = .symbol (.function name) → IsName name :=
      fun name hs => h name (mem_references.2 (hs ▸ hline))
    rwa [← (loadsNumeral_render hnamed).1 hn]
  · exact fun hline => ⟨_, List.mem_map_of_mem hline, loadsNumeral_number.2 rfl⟩

end Asm

namespace Codegen

/-! ### The numbers of commands -/

/-- The numbers that reaching an index of a segment takes. -/
def segmentImmediates (segment : Segment) (index : UInt16) : List Nat :=
  match segment with
  | .locals | .arguments | .this | .that => [index.toNat]
  | .temp => [index.toNat, tempBase]
  | .constant | .pointer | .statics => []

/-- The numbers that the code of a command loads, in order. -/
def immediatesOf : Command → List Nat
  | .push .constant n => [n.toInt.natAbs]
  | .push segment n => segmentImmediates segment (indexOf n.toInt)
  | .pop segment index => segmentImmediates segment index
  | .call _ arguments => [arguments.toNat + frameSize]
  | .ret => [frameSize, 0, 1, 2, 3, 4]
  | .operate _ | .label _ | .goto _ | .ifGoto _ | .function .. => []

theorem immediates_body (e : Emitter) (file : String) (c : Command) :
    immediates (e.body file c) = immediatesOf c := by
  cases c with
  | push segment index => cases segment <;> rfl
  | pop segment index => cases segment <;> rfl
  | operate operator => cases operator <;> rfl
  | label | goto | ifGoto | call | ret => rfl
  | function name locals => exact map_functionCode rfl immediates_append rfl name locals

theorem immediates_note (e : Emitter) (text : String) : immediates (e.note text) = [] := by
  unfold Emitter.note
  split <;> rfl

theorem immediates_code (e : Emitter) (file : String) (c : Command) :
    immediates (e.code file c) = immediatesOf c := by
  rw [Emitter.code, immediates_append, immediates_note, immediates_body]
  rfl

theorem immediates_bootstrap (e : Emitter) :
    immediates e.bootstrap = [stackBase, frameSize] := by
  rw [Emitter.bootstrap, immediates_append, immediates_append, immediates_note]
  rfl

/-- **Accepted commands refer to functions by names**, and so does the start of a program. -/
theorem functionsNamed_block {e : Emitter} {action : Action} (h : action.Accepted) :
    FunctionsNamed (e.block action) := by
  intro name hname
  have hreferred : Symbol.function name ∈ e.referred action :=
    (Emitter.mem_references_block hname).resolve_left (by simp [Symbol.family])
  cases action with
  | bootstrap =>
    obtain rfl : name = entryFunction := by
      simpa [Emitter.referred, Emitter.refers] using hreferred
    decide
  | annotate on => exact absurd hreferred List.not_mem_nil
  | compile file c =>
    have hfits : c.Fits := (show c.Accepted from h).fits
    have hrefers : Symbol.function name ∈ e.refers file c := hreferred
    cases c with
    | call callee arguments =>
      obtain rfl : name = callee := by simpa [Emitter.refers] using hrefers
      exact hfits
    | push segment index => cases segment <;> simp [Emitter.refers] at hrefers
    | pop segment index => cases segment <;> simp [Emitter.refers] at hrefers
    | operate operator =>
      exact absurd (isGenerated_of_mem_comparisonSymbols hrefers) Bool.false_ne_true
    | label | goto | ifGoto | function | ret => simp [Emitter.refers] at hrefers

theorem le_of_mem_segmentImmediates {segment : Segment} {index : UInt16} {n : Nat}
    (hindex : index.toNat ≤ 32767) (h : n ∈ segmentImmediates segment index) : n ≤ 32767 := by
  cases segment with
  | locals | arguments | this | that =>
    obtain rfl := List.mem_singleton.1 h
    exact hindex
  | temp =>
    rcases List.mem_pair.1 h with rfl | rfl
    · exact hindex
    · decide
  | constant | pointer | statics => exact absurd h List.not_mem_nil

/-- An index other than a constant is loaded as it is. -/
theorem le_of_mem_immediatesOf_push {segment : Segment} {index : Int32} {n : Nat}
    (hsegment : segment ≠ .constant) (h : (Command.push segment index).Fits)
    (hn : n ∈ immediatesOf (.push segment index)) : n ≤ 32767 := by
  have hhi := Int.le_trans h.2 segment.greatest_le
  have hlo : 0 ≤ index.toInt := by
    have hleast := h.1
    cases segment with
    | constant => exact absurd rfl hsegment
    | locals | statics | arguments | this | that | pointer | temp => exact hleast
  have hindex : (indexOf index.toInt).toNat ≤ 32767 := by
    rw [toNat_indexOf hlo (by omega)]
    omega
  have hmem : n ∈ segmentImmediates segment (indexOf index.toInt) := by
    cases segment with
    | constant => exact absurd rfl hsegment
    | locals | statics | arguments | this | that | pointer | temp => exact hn
  exact le_of_mem_segmentImmediates hindex hmem

/-- **The numbers of a command fit**, unless it is a call with too many arguments: nothing keeps
    these in range. -/
theorem forall_immediates_le_iff {c : Command} (h : c.Fits) :
    (∀ n ∈ immediatesOf c, n ≤ 32767) ↔
      ∀ name arguments, c = .call name arguments → arguments.toNat ≤ 32762 := by
  cases c with
  | call name arguments =>
    have hadd : arguments.toNat + frameSize ≤ 32767 ↔ arguments.toNat ≤ 32762 := by
      rw [frameSize]
      omega
    simpa [immediatesOf] using hadd
  | push segment index =>
    refine iff_of_true (fun n hn => ?_) (by simp)
    by_cases hsegment : segment = .constant
    · subst hsegment
      obtain rfl := List.mem_singleton.1 hn
      have hlo : -32767 ≤ index.toInt := h.1
      have hhi : index.toInt ≤ 32767 := h.2
      omega
    · exact le_of_mem_immediatesOf_push hsegment h hn
  | pop segment index =>
    refine iff_of_true (fun n hn => le_of_mem_segmentImmediates ?_ hn) (by simp)
    have hhi := Int.le_trans h.2 segment.greatest_le
    omega
  | ret => exact iff_of_true (by decide) (by simp)
  | operate | label | goto | ifGoto | function =>
    exact iff_of_true (by simp [immediatesOf]) (by simp)

/-- **Which numbers fit.**  A line that can be read gets its code, after any history of the compiler
    and in any file.  In the text of that code, every number after an `@` is at most 32767 exactly
    if the line is no call with more than 32762 arguments.  At the start of a program they all
    are. -/
theorem immediates_fit_iff {number : Nat} {line : List Char} {c : Command}
    (h : Command.ofNumberedLine number line = .ok c) (e : Emitter) (file : String) :
    ∃ lines after, e.emit file c = .ok (lines, after) ∧
      ((∀ text ∈ lines.map Line.render, ∀ n, LoadsNumeral text n → n ≤ 32767) ↔
        ∀ name arguments, c = .call name arguments → arguments.toNat ≤ 32762) ∧
      ∀ text ∈ e.bootstrap.map Line.render, ∀ n, LoadsNumeral text n → n ≤ 32767 := by
  have haccepted : c.Accepted := ⟨line, ofNumberedLine_eq_ok_iff.1 h⟩
  have hcode : (Action.compile file c).Accepted := haccepted
  have hnumerals : ∀ action : Action, action.Accepted →
      ((∀ text ∈ (e.block action).map Line.render, ∀ n, LoadsNumeral text n → n ≤ 32767) ↔
        ∀ n ∈ immediates (e.block action), n ≤ 32767) := by
    intro action haction
    simp only [← exists_loadsNumeral_iff (functionsNamed_block haction)]
    exact ⟨fun hfit n ⟨text, htext, hn⟩ => hfit text htext n hn,
      fun hfit text htext n hn => hfit n ⟨text, htext, hn⟩⟩
  refine ⟨_, _, e.act_of_hasCode hcode.hasCode, ?_, ?_⟩
  · rw [hnumerals _ hcode, ← forall_immediates_le_iff haccepted.fits, ← immediates_code e file c]
    rfl
  · refine (hnumerals .bootstrap trivial).2 ?_
    show ∀ n ∈ immediates e.bootstrap, n ≤ 32767
    rw [immediates_bootstrap]
    decide

/-- The longest call whose number fits, written with a leading zero and a comment. -/
theorem longest_call_fits :
    Command.ofNumberedLine 7 "\tcall Main.f 032762 // longest".toList = .ok (.call "Main.f" 32762) ∧
      ∃ lines after, ({ annotate := true } : Emitter).emit "Main" (.call "Main.f" 32762) =
          .ok (lines, after) ∧
        "@32767" ∈ lines.map Line.render ∧
        ∀ text ∈ lines.map Line.render, ∀ n, LoadsNumeral text n → n ≤ 32767 := by
  have hread : Command.ofNumberedLine 7 "\tcall Main.f 032762 // longest".toList =
      .ok (.call "Main.f" 32762) := by
    decide +kernel
  refine ⟨hread, ?_⟩
  obtain ⟨lines, after, hemit, hfits, -⟩ := immediates_fit_iff hread { annotate := true } "Main"
  refine ⟨lines, after, hemit, ?_, hfits.2 ?_⟩
  · obtain ⟨rfl, -⟩ := Prod.mk.inj (Except.ok.inj hemit)
    decide +kernel
  · rintro name arguments heq
    obtain ⟨-, rfl⟩ := Command.call.inj heq
    decide

/-- **Not every number fits**: a call with one argument more can be read, and its code loads a
    number of 16 bits; that of the longest call needs 17. -/
theorem call_immediate_too_large :
    (Command.ofNumberedLine 1 "call f 32763".toList = .ok (.call "f" 32763) ∧
      ∃ lines after, ({} : Emitter).emit "Main" (.call "f" 32763) = .ok (lines, after) ∧
        "@32768" ∈ lines.map Line.render ∧ LoadsNumeral "@32768" 32768) ∧
    Command.ofNumberedLine 1 "call f 65535".toList = .ok (.call "f" 65535) ∧
      ∃ lines after, ({} : Emitter).emit "Main" (.call "f" 65535) = .ok (lines, after) ∧
        "@65540" ∈ lines.map Line.render ∧ LoadsNumeral "@65540" 65540 := by
  have hloads : ∀ n : Nat, LoadsNumeral (Line.number n).render n :=
    fun n => loadsNumeral_number.2 rfl
  exact ⟨⟨by decide +kernel, _, _, rfl, by decide +kernel, hloads 32768⟩,
    by decide +kernel, _, _, rfl, by decide +kernel, hloads 65540⟩

end Codegen

end HackVM
