import HackVM.Proofs.Asm.Reading
import HackVM.Proofs.Vm.Sentence

namespace HackVM

/-!
# The written form of a command

A command is written as its words with one space between them.  If its operands fit, this is a
sentence of the grammar, so that it is read back as the command.

* `numeral_decimal` and `signedNumeral_signedDecimal` — written numbers are numerals;
* `sentence_render` — the written form of a command is a sentence for it;
* `IsWord` — what the words of a command look like, and `bare_render` — a written command has
  nothing to be taken off but blank characters after it;
* `ofLine_render_append` — hence it is read back, also from a line that ends blank;
* `normalForm` — what a line is written as once it has been read, and `rendering_is_normalForm` —
  a line and its normal form are read as the same command, and no other command has that form.
-/

/-! ### Sentences -/

theorem numeral_decimal (n : Nat) : Numeral (Text.decimal n) n :=
  ⟨Text.decimal_ne_nil n, fun _ hc => Text.isDigit_of_mem_decimal hc, Text.digitsValue_decimal n⟩

theorem signedNumeral_signedDecimal (n : Int) : SignedNumeral (Text.signedDecimal n) n := by
  cases n with
  | ofNat n => exact .plain (numeral_decimal n)
  | negSucc n => exact .minus (numeral_decimal (n + 1))

theorem gap_space : Gap [' '] :=
  ⟨by simp, by simp⟩

theorem toList_render (c : Command) :
    c.render.toList = [' '].intercalate (c.words.map String.toList) := by
  rw [Command.render, String.toList_intercalate]
  rfl

/-- **The written form of a command is a sentence for it.** -/
theorem sentence_render {c : Command} (h : c.Fits) : Sentence c.render.toList c := by
  rw [toList_render]
  cases c with
  | push segment index =>
    have hnumber := signedNumeral_signedDecimal index.toInt
    simpa [Command.words] using Sentence.push gap_space gap_space hnumber h.1 h.2
  | pop segment index =>
    have hnumber := numeral_decimal index.toNat
    simpa [Command.words] using Sentence.pop gap_space gap_space hnumber h.1 h.2
  | operate operator => simpa [Command.words] using Sentence.operate operator
  | label name => simpa [Command.words] using Sentence.label gap_space h
  | goto name => simpa [Command.words] using Sentence.goto gap_space h
  | ifGoto name => simpa [Command.words] using Sentence.ifGoto gap_space h
  | function name locals =>
    have hnumber := numeral_decimal locals.toNat
    simpa [Command.words] using Sentence.function gap_space h gap_space hnumber
  | call name arguments =>
    have hnumber := numeral_decimal arguments.toNat
    simpa [Command.words] using Sentence.call gap_space h gap_space hnumber
  | ret => exact Sentence.ret

/-! ### Words -/

/-- A word of a written command: it is not empty, and nothing in it is blank or a slash. -/
def IsWord (word : List Char) : Prop :=
  word ≠ [] ∧ ∀ d ∈ word, ¬ Text.isBlank d ∧ d ≠ '/'

-- The characters of the word are tried, not all characters that there are.
instance (word : List Char) : Decidable (IsWord word) :=
  @instDecidableAnd _ _ inferInstance (List.decidableBAll _ word)

theorem isWord_of_nameChar {word : List Char} (hne : word ≠ []) (h : ∀ d ∈ word, NameChar d) :
    IsWord word := by
  refine ⟨hne, fun d hd => ⟨Machine.not_isBlank_of_nameChar (h d hd), ?_⟩⟩
  rintro rfl
  exact absurd (h '/' hd) (by decide)

theorem IsName.isWord {name : String} (h : IsName name) : IsWord name.toList := by
  refine isWord_of_nameChar (fun hnil => ?_) h.2
  obtain ⟨c, hc, -⟩ := h.1
  simp [hnil] at hc

theorem isWord_decimal (n : Nat) : IsWord (Text.decimal n) :=
  isWord_of_nameChar (Text.decimal_ne_nil n) fun _ hd =>
    .inr (.inl (Text.isDigit_of_mem_decimal hd))

theorem isWord_signedDecimal (n : Int) : IsWord (Text.signedDecimal n) := by
  cases n with
  | ofNat n => exact isWord_decimal n
  | negSucc n =>
    refine ⟨by simp [Text.signedDecimal], ?_⟩
    rw [Text.signedDecimal, List.forall_mem_cons]
    exact ⟨by decide, (isWord_decimal (n + 1)).2⟩

theorem isWord_segment (s : Segment) : IsWord s.name.toList := by
  cases s <;> decide

theorem isWord_operator (o : Operator) : IsWord o.name.toList := by
  cases o <;> decide

theorem isWord_of_mem_words {c : Command} (h : c.Fits) : ∀ word ∈ c.words, IsWord word.toList := by
  cases c with
  | push segment index =>
    have hnumber := isWord_signedDecimal index.toInt
    simpa [Command.words, isWord_segment segment, hnumber] using (by decide : IsWord "push".toList)
  | pop segment index =>
    have hnumber := isWord_decimal index.toNat
    simpa [Command.words, isWord_segment segment, hnumber] using (by decide : IsWord "pop".toList)
  | operate operator => simpa [Command.words] using isWord_operator operator
  | label name => simpa [Command.words, IsName.isWord h] using (by decide : IsWord "label".toList)
  | goto name => simpa [Command.words, IsName.isWord h] using (by decide : IsWord "goto".toList)
  | ifGoto name =>
    simpa [Command.words, IsName.isWord h] using (by decide : IsWord "if-goto".toList)
  | function name locals =>
    have hnumber := isWord_decimal locals.toNat
    simpa [Command.words, IsName.isWord h, hnumber] using (by decide : IsWord "function".toList)
  | call name arguments =>
    have hnumber := isWord_decimal arguments.toNat
    simpa [Command.words, IsName.isWord h, hnumber] using (by decide : IsWord "call".toList)
  | ret => simpa [Command.words] using (by decide : IsWord "return".toList)

/-! ### Reading back -/

/-- The characters of words with a space between them. -/
theorem mem_intercalate_space {words : List (List Char)} {d : Char}
    (h : d ∈ [' '].intercalate words) : d = ' ' ∨ ∃ word ∈ words, d ∈ word := by
  induction words with
  | nil => simp at h
  | cons word words ih =>
    cases words with
    | nil => exact .inr ⟨word, by simp, by simpa using h⟩
    | cons next words =>
      rw [List.intercalate_cons_cons, List.append_assoc, List.mem_append, List.mem_append] at h
      rcases h with hword | hspace | hrest
      · exact .inr ⟨word, List.mem_cons_self, hword⟩
      · exact .inl (List.mem_singleton.1 hspace)
      · exact (ih hrest).imp_right fun ⟨w, hw, hd⟩ => ⟨w, List.mem_cons_of_mem _ hw, hd⟩

/-- Words with a space between them start and end with a character that is not blank. -/
theorem not_isBlank_intercalate {words : List (List Char)} (h : ∀ word ∈ words, IsWord word) :
    let text := [' '].intercalate words
    (words ≠ [] → text ≠ []) ∧ (∀ d ∈ text.head?, ¬ Text.isBlank d) ∧
      ∀ d ∈ text.getLast?, ¬ Text.isBlank d := by
  induction words with
  | nil => simp
  | cons word words ih =>
    rw [List.forall_mem_cons] at h
    obtain ⟨⟨hne, hchars⟩, hrest⟩ := h
    cases words with
    | nil =>
      rw [List.intercalate_singleton]
      exact ⟨fun _ => hne, fun d hd => (hchars d (List.mem_of_head? hd)).1,
        fun d hd => (hchars d (List.mem_of_getLast? hd)).1⟩
    | cons next words =>
      -- What follows the space is not empty, so its last character is that of the whole.
      obtain ⟨hne', -, hlast⟩ := ih hrest
      rw [List.intercalate_cons_cons]
      generalize [' '].intercalate (next :: words) = rest at hne' hlast
      have hrestNe : rest ≠ [] := hne' (by simp)
      refine ⟨by simp, ?_, ?_⟩
      · intro d hd
        rw [List.append_assoc, List.head?_append_of_ne_nil _ hne] at hd
        exact (hchars d (List.mem_of_head? hd)).1
      · intro d hd
        rw [List.getLast?_append_of_ne_nil _ hrestNe] at hd
        exact hlast d hd

section Written

variable {c : Command} (h : c.Fits)

include h

/-- The only blank characters in a written command are spaces, and no slash is in it. -/
theorem mem_render {d : Char} (hd : d ∈ c.render.toList) :
    d = ' ' ∨ ¬ Text.isBlank d ∧ d ≠ '/' := by
  rw [toList_render] at hd
  refine (mem_intercalate_space hd).imp_right ?_
  rintro ⟨word, hword, hd⟩
  obtain ⟨text, htext, rfl⟩ := List.mem_map.1 hword
  exact (isWord_of_mem_words h text htext).2 d hd

/-- A written command is one line. -/
theorem newline_not_mem_render : '\n' ∉ c.render.toList :=
  fun hmem => absurd (mem_render h hmem) (by decide)

/-- A written command has nothing to be taken off but blank characters after it. -/
theorem bare_render {right : List Char} (hright : ∀ d ∈ right, Text.isBlank d) :
    Text.bare (c.render.toList ++ right) = c.render.toList := by
  have hslash : '/' ∉ c.render.toList := fun hmem => absurd (mem_render h hmem) (by decide)
  have hwords : ∀ word ∈ c.words.map String.toList, IsWord word := by
    simpa using isWord_of_mem_words h
  obtain ⟨-, hhead, hlast⟩ := not_isBlank_intercalate hwords
  rw [← toList_render] at hhead hlast
  exact Text.bare_append_of_blank hslash hhead hlast hright

/-- **A written command is read back**, also if blank characters follow it. -/
theorem ofLine_render_append {right : List Char} (hright : ∀ d ∈ right, Text.isBlank d) :
    Command.ofLine (c.render.toList ++ right) = .ok c := by
  rw [ofLine_eq_ok_iff, bare_render h hright]
  exact sentence_render h

theorem ofNumberedLine_render (number : Nat) :
    Command.ofNumberedLine number c.render.toList = .ok c := by
  rw [ofNumberedLine_eq_ok_iff, ← List.append_nil c.render.toList]
  exact ofLine_render_append h (by simp)

/-- **Commands are known by their written forms.** -/
theorem render_inj {c' : Command} (h' : c'.Fits) : c'.render = c.render ↔ c' = c := by
  constructor
  · intro heq
    have hread := ofNumberedLine_render h' 0
    rw [heq, ofNumberedLine_render h 0] at hread
    exact (Except.ok.inj hread).symm
  · rintro rfl
    rfl

end Written

/-! ### Normal forms -/

/-- The written form of the command that a line is read as. -/
def normalForm (number : Nat) (line : List Char) : Except SourceError String :=
  (Command.ofNumberedLine number line).map Command.render

theorem normalForm_eq_ok_iff {number : Nat} {line : List Char} {text : String} :
    normalForm number line = .ok text ↔
      ∃ c, Command.ofNumberedLine number line = .ok c ∧ c.render = text := by
  unfold normalForm
  cases Command.ofNumberedLine number line <;> simp [Except.map]

/-- A line that can be read is read as a command whose operands fit. -/
theorem fits_of_ofNumberedLine {number : Nat} {line : List Char} {c : Command}
    (h : Command.ofNumberedLine number line = .ok c) : c.Fits :=
  Command.Accepted.fits ⟨line, ofNumberedLine_eq_ok_iff.1 h⟩

/-- **Writing inverts reading.**  Take a command that some line is read as.

    * Its written form is read as that command, wherever it stands.
    * No other command that can be read is written like it.
    * It is the normal form of the line, and its own normal form; the lines with this normal form
      are just those that are read as the command. -/
theorem rendering_is_normalForm {number : Nat} {line : List Char} {c : Command}
    (h : Command.ofNumberedLine number line = .ok c) :
    (∀ m, Command.ofNumberedLine m c.render.toList = .ok c) ∧
      (∀ number' line' c', Command.ofNumberedLine number' line' = .ok c' →
        (c'.render = c.render ↔ c' = c)) ∧
      (∀ text, normalForm number line = .ok text →
        text = c.render ∧ ∀ m, normalForm m text.toList = .ok text) ∧
      ∀ number' line', normalForm number' line' = .ok c.render ↔
        Command.ofNumberedLine number' line' = .ok c := by
  have hfits := fits_of_ofNumberedLine h
  have hinj : ∀ number' line' c', Command.ofNumberedLine number' line' = .ok c' →
      (c'.render = c.render ↔ c' = c) :=
    fun _ _ _ h' => render_inj hfits (fits_of_ofNumberedLine h')
  refine ⟨ofNumberedLine_render hfits, hinj, ?_, ?_⟩
  · intro text htext
    obtain ⟨c', hread, rfl⟩ := normalForm_eq_ok_iff.1 htext
    obtain rfl : c = c' := Except.ok.inj (h.symm.trans hread)
    exact ⟨rfl, fun m => normalForm_eq_ok_iff.2 ⟨c, ofNumberedLine_render hfits m, rfl⟩⟩
  · intro number' line'
    rw [normalForm_eq_ok_iff]
    constructor
    · rintro ⟨c', hread, hrender⟩
      rwa [← (hinj number' line' c' hread).1 hrender]
    · exact fun hread => ⟨c, hread, rfl⟩

/-- Tabs, zeros, a sign before zero and a comment are not in the normal form. -/
theorem normalForm_minus_zero :
    Command.ofNumberedLine 3 "\tpush\tconstant  -000 // zero".toList = .ok (.push .constant 0) ∧
      normalForm 3 "\tpush\tconstant  -000 // zero".toList = .ok "push constant 0" ∧
      (∀ m, Command.ofNumberedLine m "push constant 0".toList = .ok (.push .constant 0)) ∧
      (∀ m, normalForm m "push constant 0".toList = .ok "push constant 0") ∧
      Command.render (.push .temp 0) ≠ "push constant 0" := by
  have hread : Command.ofNumberedLine 3 "\tpush\tconstant  -000 // zero".toList =
      .ok (.push .constant 0) := by
    decide +kernel
  have hother : Command.ofNumberedLine 1 "push temp 0".toList = .ok (.push .temp 0) := by
    decide +kernel
  have hrender : Command.render (.push .constant 0) = "push constant 0" := by decide +kernel
  obtain ⟨hback, hinj, hnormal, hlines⟩ := rendering_is_normalForm hread
  rw [hrender] at hback hinj hlines
  have hform : normalForm 3 "\tpush\tconstant  -000 // zero".toList = .ok "push constant 0" :=
    (hlines 3 _).2 hread
  exact ⟨hread, hform, hback, (hnormal _ hform).2, fun heq =>
    absurd ((hinj 1 _ _ hother).1 heq) (by decide)⟩

end HackVM
