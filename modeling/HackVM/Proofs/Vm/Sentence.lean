import HackVM.Proofs.Text.Bare
import HackVM.Vm.Source
import Mathlib.Data.List.Basic
import Mathlib.Data.List.TakeWhile
import Mathlib.Data.Option.Basic
import Mathlib.Tactic.Tauto

namespace HackVM

open Grammar

/-!
# Sentences — which texts are commands

The reader of a command line works through an ordered choice of keywords, takes each token as far
as it goes, and checks numbers after it has read them.  This file gives the same language as a
grammar, with no order and no reader in it, and shows that the two agree:

* `Gap`, `Numeral`, `SignedNumeral` and `IsName` are the tokens, and `Sentence t c` says that the
  text `t` spells the command `c`;
* `Continues c d` says that the character `d` would prolong the last token of a sentence for `c`;
* `take?_eq_some_iff` — the reader takes exactly the sentences whose last token is not prolonged
  by what follows;
* `ofNumberedLine_classifies` — hence a line is a command, a command with something after it, or
  neither, as the grammar says.
-/

/-! ### Tokens -/

/-- What separates two tokens: spaces and tabs, at least one. -/
def Gap (cs : List Char) : Prop :=
  cs ≠ [] ∧ ∀ c ∈ cs, c = ' ' ∨ c = '\t'

/-- Decimal digits, at least one, with their value. -/
def Numeral (cs : List Char) (n : Nat) : Prop :=
  cs ≠ [] ∧ (∀ c ∈ cs, c.isDigit) ∧ Text.digitsValue cs = n

/-- A numeral that a minus sign may precede. -/
inductive SignedNumeral : List Char → Int → Prop where
  | plain {ds : List Char} {n : Nat} (h : Numeral ds n) : SignedNumeral ds n
  | minus {ds : List Char} {n : Nat} (h : Numeral ds n) : SignedNumeral ('-' :: ds) (-(n : Int))

/-- The characters of a name: letters, digits and four signs. -/
def NameChar (c : Char) : Prop :=
  c.isAlpha ∨ c.isDigit ∨ c ∈ ['_', '.', '$', ':']

instance (c : Char) : Decidable (NameChar c) :=
  inferInstanceAs (Decidable (_ ∨ _))

/-- A name: name characters, at least one, the first of which is no digit. -/
def IsName (name : String) : Prop :=
  (∃ c ∈ name.toList.head?, ¬ c.isDigit) ∧ ∀ c ∈ name.toList, NameChar c

-- Instance search would go through all characters here.
instance (name : String) : Decidable (IsName name) :=
  @instDecidableAnd _ _ (Option.decidableExistsMem name.toList.head?)
    (List.decidableBAll NameChar name.toList)

/-- The least index that a command may name in a segment. -/
def Segment.least : Segment → Int
  | .constant => -32767
  | _ => 0

/-- The greatest index that a command may name in a segment. -/
def Segment.greatest : Segment → Int
  | .pointer => 1
  | .temp => 7
  | _ => 32767

/-! ### Sentences -/

/-- The text on the left spells the command on the right. -/
inductive Sentence : List Char → Command → Prop where
  | push {segment : Segment} {index : Int32} {g h ds : List Char} (hg : Gap g) (hh : Gap h)
      (hds : SignedNumeral ds index.toInt)
      (hlo : segment.least ≤ index.toInt) (hhi : index.toInt ≤ segment.greatest) :
      Sentence ("push".toList ++ (g ++ (segment.name.toList ++ (h ++ ds)))) (.push segment index)
  | pop {segment : Segment} {index : UInt16} {g h ds : List Char} (hg : Gap g) (hh : Gap h)
      (hds : Numeral ds index.toNat) (hs : segment ≠ .constant)
      (hhi : (index.toNat : Int) ≤ segment.greatest) :
      Sentence ("pop".toList ++ (g ++ (segment.name.toList ++ (h ++ ds)))) (.pop segment index)
  | operate (operator : Operator) : Sentence operator.name.toList (.operate operator)
  | label {name : String} {g : List Char} (hg : Gap g) (hn : IsName name) :
      Sentence ("label".toList ++ (g ++ name.toList)) (.label name)
  | goto {name : String} {g : List Char} (hg : Gap g) (hn : IsName name) :
      Sentence ("goto".toList ++ (g ++ name.toList)) (.goto name)
  | ifGoto {name : String} {g : List Char} (hg : Gap g) (hn : IsName name) :
      Sentence ("if-goto".toList ++ (g ++ name.toList)) (.ifGoto name)
  | function {name : String} {count : UInt16} {g h ds : List Char} (hg : Gap g) (hn : IsName name)
      (hh : Gap h) (hds : Numeral ds count.toNat) :
      Sentence ("function".toList ++ (g ++ (name.toList ++ (h ++ ds)))) (.function name count)
  | call {name : String} {count : UInt16} {g h ds : List Char} (hg : Gap g) (hn : IsName name)
      (hh : Gap h) (hds : Numeral ds count.toNat) :
      Sentence ("call".toList ++ (g ++ (name.toList ++ (h ++ ds)))) (.call name count)
  | ret : Sentence "return".toList .ret

/-- The character would prolong the last token of a sentence for the command: a digit prolongs a
    number and a name character prolongs a name, but nothing prolongs a keyword. -/
def Continues : Command → Char → Prop
  | .push .., d | .pop .., d | .function .., d | .call .., d => d.isDigit
  | .label _, d | .goto _, d | .ifGoto _, d => NameChar d
  | .operate _, _ | .ret, _ => False

/-- The text starts with a sentence that ends before `rest`, and `rest` is not empty and does not
    prolong the sentence's last token. -/
def Trails (text rest : List Char) : Prop :=
  rest ≠ [] ∧ ∃ p c, text = p ++ rest ∧ Sentence p c ∧ ∀ d ∈ rest.head?, ¬ Continues c d

/-! ### Reading tokens -/

/-- `takeWhile` and `dropWhile` split a text after the longest run of a class of characters. -/
theorem takeWhile_dropWhile_eq_iff {p : Char → Bool} {cs run rest : List Char} :
    cs.takeWhile p = run ∧ cs.dropWhile p = rest ↔
      cs = run ++ rest ∧ (∀ c ∈ run, p c) ∧ ∀ d ∈ rest.head?, ¬ p d := by
  constructor
  · rintro ⟨rfl, rfl⟩
    refine ⟨List.takeWhile_append_dropWhile.symm, fun c hc => List.mem_takeWhile_imp hc, ?_⟩
    -- What `dropWhile` leaves starts with a character outside the class.
    intro d hd
    have hnot := List.head?_dropWhile_not p cs
    rw [Option.mem_def.1 hd] at hnot
    simpa using hnot
  · rintro ⟨rfl, hrun, hrest⟩
    -- The run is taken as a whole, and nothing of the rest.
    have htake : rest.takeWhile p = [] := by
      cases rest with
      | nil => rfl
      | cons d ds => simp [hrest d (by simp)]
    have hdrop : rest.dropWhile p = rest := by
      cases rest with
      | nil => rfl
      | cons d ds => simp [hrest d (by simp)]
    exact ⟨by rw [List.takeWhile_append_of_pos hrun, htake, List.append_nil],
      by rw [List.dropWhile_append_of_pos hrun, hdrop]⟩

theorem isGap_iff {c : Char} : isGap c = true ↔ c = ' ' ∨ c = '\t' := by
  simp [isGap]

theorem isNameChar_iff {c : Char} : isNameChar c = true ↔ NameChar c := by
  simp [isNameChar, NameChar, Char.isAlphanum, or_assoc]

theorem takeWord_eq_some_iff {word : String} {cs rest : List Char} :
    takeWord word cs = some rest ↔ cs = word.toList ++ rest := by
  rw [takeWord, List.isPrefixOf?_eq_some_iff_append_eq]
  exact eq_comm

theorem takeGap_eq_some_iff {cs rest : List Char} :
    takeGap cs = some rest ↔
      ∃ g, Gap g ∧ cs = g ++ rest ∧ ∀ d ∈ rest.head?, ¬ isGap d := by
  constructor
  · intro h
    cases cs with
    | nil => simp [takeGap] at h
    | cons c cs =>
      by_cases hc : isGap c
      · simp only [takeGap, hc, if_true, Option.some.injEq] at h
        obtain ⟨hcs, hrun, hrest⟩ := takeWhile_dropWhile_eq_iff.1 ⟨rfl, h⟩
        refine ⟨c :: cs.takeWhile isGap, ⟨by simp, ?_⟩, by rw [List.cons_append, ← hcs], hrest⟩
        intro d hd
        rcases List.mem_cons.1 hd with rfl | hd
        · exact isGap_iff.1 hc
        · exact isGap_iff.1 (hrun d hd)
      · simp [takeGap, hc] at h
  · rintro ⟨g, ⟨hne, hall⟩, rfl, hrest⟩
    -- The reader looks at the first character apart from the others.
    cases g with
    | nil => exact absurd rfl hne
    | cons c g =>
      have hc : isGap c = true := isGap_iff.2 (hall c (by simp))
      have hg : ∀ d ∈ g, isGap d := fun d hd => isGap_iff.2 (hall d (by simp [hd]))
      have hdrop := (takeWhile_dropWhile_eq_iff.2 ⟨rfl, hg, hrest⟩).2
      simp [takeGap, hc, hdrop]

theorem takeDigits_eq_some_iff {cs rest : List Char} {n : Nat} :
    Text.takeDigits cs = some (n, rest) ↔
      ∃ ds, Numeral ds n ∧ cs = ds ++ rest ∧ ∀ d ∈ rest.head?, ¬ d.isDigit := by
  constructor
  · intro h
    cases hds : cs.takeWhile Char.isDigit with
    | nil => simp [Text.takeDigits, hds] at h
    | cons c ds =>
      simp only [Text.takeDigits, hds, Option.some.injEq, Prod.mk.injEq] at h
      obtain ⟨hcs, hrun, hrest⟩ := takeWhile_dropWhile_eq_iff.1 ⟨hds, h.2⟩
      exact ⟨c :: ds, ⟨by simp, hrun, h.1⟩, hcs, hrest⟩
  · rintro ⟨ds, ⟨hne, hall, hval⟩, rfl, hrest⟩
    obtain ⟨htake, hdrop⟩ := takeWhile_dropWhile_eq_iff.2 ⟨rfl, hall, hrest⟩
    cases ds with
    | nil => exact absurd rfl hne
    | cons d ds => simp only [Text.takeDigits, htake, hdrop, hval]

theorem takeSigned_eq_some_iff {cs rest : List Char} {n : Int} :
    Text.takeSigned cs = some (n, rest) ↔
      ∃ ds, SignedNumeral ds n ∧ cs = ds ++ rest ∧ ∀ d ∈ rest.head?, ¬ d.isDigit := by
  constructor
  · intro h
    unfold Text.takeSigned at h
    split at h
    · obtain ⟨⟨k, rest'⟩, hk, heq⟩ := Option.map_eq_some_iff.1 h
      obtain ⟨rfl, rfl⟩ := Prod.mk.injEq .. ▸ heq
      obtain ⟨ds, hds, rfl, hrest⟩ := takeDigits_eq_some_iff.1 hk
      exact ⟨'-' :: ds, .minus hds, rfl, hrest⟩
    · obtain ⟨⟨k, rest'⟩, hk, heq⟩ := Option.map_eq_some_iff.1 h
      obtain ⟨rfl, rfl⟩ := Prod.mk.injEq .. ▸ heq
      obtain ⟨ds, hds, rfl, hrest⟩ := takeDigits_eq_some_iff.1 hk
      exact ⟨ds, .plain hds, rfl, hrest⟩
  · rintro ⟨ds, hds, rfl, hrest⟩
    cases hds with
    | minus hds =>
      have htake := takeDigits_eq_some_iff.2 ⟨_, hds, rfl, hrest⟩
      simp [Text.takeSigned, htake]
    | @plain ds k hds =>
      have htake := takeDigits_eq_some_iff.2 ⟨_, hds, rfl, hrest⟩
      obtain ⟨hne, hall, -⟩ := hds
      cases ds with
      | nil => exact absurd rfl hne
      | cons d ds =>
        -- The first digit is no minus sign, so the other branch is taken.
        have hd : d ≠ '-' := by
          rintro rfl
          exact absurd (hall '-' (by simp)) (by decide)
        rw [List.cons_append] at htake ⊢
        unfold Text.takeSigned
        split
        · rename_i heq
          exact absurd (List.cons.inj heq).1 hd
        · simp [htake]

theorem takeCount_eq_some_iff {cs rest : List Char} {n : UInt16} :
    takeCount cs = some (n, rest) ↔
      ∃ ds, Numeral ds n.toNat ∧ cs = ds ++ rest ∧ ∀ d ∈ rest.head?, ¬ d.isDigit := by
  -- A count is a number that 16 bits hold, so that its value is not changed by the conversion.
  have hiff : takeCount cs = some (n, rest) ↔ Text.takeDigits cs = some (n.toNat, rest) := by
    unfold takeCount
    cases htake : Text.takeDigits cs with
    | none => simp
    | some read =>
      obtain ⟨k, rest'⟩ := read
      by_cases hk : k < UInt16.size
      · have hn : UInt16.ofNat k = n ↔ k = n.toNat := by
          constructor
          · rintro rfl
            exact (UInt16.toNat_ofNat_of_lt' hk).symm
          · rintro rfl
            exact UInt16.ofNat_toNat
        simp [guard, hk, hn]
      · have hn : k ≠ n.toNat := fun h => hk (h ▸ n.toNat_lt_size)
        simp [guard, hk, hn, failure]
  rw [hiff, takeDigits_eq_some_iff]

theorem takeName_eq_some_iff {cs rest : List Char} {name : String} :
    takeName cs = some (name, rest) ↔
      IsName name ∧ cs = name.toList ++ rest ∧ ∀ d ∈ rest.head?, ¬ NameChar d := by
  constructor
  · intro h
    cases hrun : cs.takeWhile isNameChar with
    | nil => simp [takeName, hrun] at h
    | cons c run =>
      -- All of the run is read first; only then is its first character looked at.
      by_cases hc : c.isDigit
      · simp [takeName, hrun, hc] at h
      · simp only [takeName, hrun, hc, Bool.false_eq_true, if_false, Option.some.injEq,
          Prod.mk.injEq] at h
        obtain ⟨hcs, hall, hrest⟩ := takeWhile_dropWhile_eq_iff.1 ⟨hrun, h.2⟩
        obtain ⟨rfl, -⟩ := h
        refine ⟨⟨⟨c, by simp, hc⟩, ?_⟩, by simpa using hcs, ?_⟩
        · intro d hd
          exact isNameChar_iff.1 (hall d (by simpa using hd))
        · intro d hd hname
          exact hrest d hd (isNameChar_iff.2 hname)
  · rintro ⟨⟨⟨c, hc, hdigit⟩, hall⟩, rfl, hrest⟩
    have hall' : ∀ d ∈ name.toList, isNameChar d := fun d hd => isNameChar_iff.2 (hall d hd)
    have hrest' : ∀ d ∈ rest.head?, ¬ isNameChar d :=
      fun d hd h => hrest d hd (isNameChar_iff.1 h)
    obtain ⟨htake, hdrop⟩ := takeWhile_dropWhile_eq_iff.2 ⟨rfl, hall', hrest'⟩
    cases hname : name.toList with
    | nil => simp [hname] at hc
    | cons d run =>
      obtain rfl : d = c := by simpa [hname] using hc
      rw [hname] at htake hdrop
      simp only [takeName, htake, hdrop, hdigit, Bool.false_eq_true, if_false]
      rw [← hname, String.ofList_toList]

/-- No name of a segment starts with that of another, so the order of trial does not matter. -/
theorem takeSegment_eq_some_iff {cs rest : List Char} {s : Segment} :
    takeSegment cs = some (s, rest) ↔ cs = s.name.toList ++ rest := by
  constructor
  · intro h
    obtain ⟨s', -, h⟩ := List.exists_of_findSome?_eq_some h
    obtain ⟨rest', htake, heq⟩ := Option.map_eq_some_iff.1 h
    obtain ⟨rfl, rfl⟩ := Prod.mk.injEq .. ▸ heq
    exact takeWord_eq_some_iff.1 htake
  · rintro rfl
    cases s <;> simp [takeSegment, Segment.all, Segment.name, takeWord, List.isPrefixOf?]

/-- No name of an operator starts with that of another, so the order of trial does not matter. -/
theorem takeOperator_eq_some_iff {cs rest : List Char} {o : Operator} :
    takeOperator cs = some (o, rest) ↔ cs = o.name.toList ++ rest := by
  constructor
  · intro h
    obtain ⟨o', -, h⟩ := List.exists_of_findSome?_eq_some h
    obtain ⟨rest', htake, heq⟩ := Option.map_eq_some_iff.1 h
    obtain ⟨rfl, rfl⟩ := Prod.mk.injEq .. ▸ heq
    exact takeWord_eq_some_iff.1 htake
  · rintro rfl
    cases o <;> simp [takeOperator, Operator.all, Operator.name, takeWord, List.isPrefixOf?]

/-! ### What stands after a gap -/

theorem not_isGap_of_isDigit {c : Char} (h : c.isDigit) : ¬ isGap c := by
  intro hgap
  rcases isGap_iff.1 hgap with rfl | rfl <;> exact absurd h (by decide)

theorem not_isGap_of_nameChar {c : Char} (h : NameChar c) : ¬ isGap c := by
  intro hgap
  rcases isGap_iff.1 hgap with rfl | rfl <;> exact absurd h (by unfold NameChar; decide)

theorem Gap.not_nameChar_head {g : List Char} (h : Gap g) (rest : List Char) :
    ∀ d ∈ (g ++ rest).head?, ¬ NameChar d := by
  obtain ⟨hne, hall⟩ := h
  cases g with
  | nil => exact absurd rfl hne
  | cons c g =>
    intro d hd hname
    obtain rfl : c = d := by simpa using hd
    exact not_isGap_of_nameChar hname (isGap_iff.2 (hall c (by simp)))

theorem Numeral.not_isGap_head {ds : List Char} {n : Nat} (h : Numeral ds n) (rest : List Char) :
    ∀ d ∈ (ds ++ rest).head?, ¬ isGap d := by
  obtain ⟨hne, hall, -⟩ := h
  cases ds with
  | nil => exact absurd rfl hne
  | cons c ds =>
    intro d hd
    obtain rfl : c = d := by simpa using hd
    exact not_isGap_of_isDigit (hall c (by simp))

theorem SignedNumeral.not_isGap_head {ds : List Char} {n : Int} (h : SignedNumeral ds n)
    (rest : List Char) : ∀ d ∈ (ds ++ rest).head?, ¬ isGap d := by
  cases h with
  | plain h => exact h.not_isGap_head rest
  | minus h =>
    intro d hd
    obtain rfl : '-' = d := by simpa using hd
    decide

theorem IsName.not_isGap_head {name : String} (h : IsName name) (rest : List Char) :
    ∀ d ∈ (name.toList ++ rest).head?, ¬ isGap d := by
  obtain ⟨⟨c, hc, -⟩, hall⟩ := h
  intro d hd
  -- A name is not empty, so its first character is that of the whole text.
  obtain rfl : c = d := by
    rw [List.head?_append, Option.mem_def.1 hc] at hd
    simpa using hd
  exact not_isGap_of_nameChar (hall c (List.mem_of_head? hc))

theorem Segment.not_isGap_head (s : Segment) (rest : List Char) :
    ∀ d ∈ (s.name.toList ++ rest).head?, ¬ isGap d := by
  cases s <;> simp [Segment.name, isGap]

/-! ### Reading each kind of command -/

theorem admits_iff {s : Segment} {n : Int} : s.Admits n ↔ s.least ≤ n ∧ n ≤ s.greatest := by
  cases s <;> simp [Segment.Admits, Segment.lowest, Segment.highest, Segment.least,
    Segment.greatest, maxImmediate]

theorem Segment.greatest_le (s : Segment) : s.greatest ≤ 32767 := by
  cases s <;> decide

/-- An index within the range of its segment is a 32-bit number. -/
theorem toInt_ofInt_of_range {s : Segment} {n : Int} (hlo : s.least ≤ n) (hhi : n ≤ s.greatest) :
    (Int32.ofInt n).toInt = n := by
  have hl : -32767 ≤ s.least := by cases s <;> decide
  have hg := s.greatest_le
  exact Int32.toInt_ofInt_of_le (by omega) (by omega)

/-- The text is a sentence for the command, followed by a rest that does not prolong its last
    token. -/
def Reads (cs rest : List Char) (c : Command) : Prop :=
  ∃ p, cs = p ++ rest ∧ Sentence p c ∧ ∀ d ∈ rest.head?, ¬ Continues c d

theorem takeNamed_eq_some_iff (word : String) {cs rest : List Char} {name : String} :
    takeNamed word cs = some (name, rest) ↔
      ∃ g, Gap g ∧ IsName name ∧ cs = word.toList ++ (g ++ (name.toList ++ rest)) ∧
        ∀ d ∈ rest.head?, ¬ NameChar d := by
  constructor
  · intro htake
    -- Each reader says how the text before it is put together from its token and the rest.
    obtain ⟨cs₁, hword, htake⟩ := Option.bind_eq_some_iff.1 htake
    obtain ⟨cs₂, hgap, hname⟩ := Option.bind_eq_some_iff.1 htake
    obtain ⟨g, hg, rfl, -⟩ := takeGap_eq_some_iff.1 hgap
    obtain ⟨hn, rfl, hrest⟩ := takeName_eq_some_iff.1 hname
    exact ⟨g, hg, hn, takeWord_eq_some_iff.1 hword, hrest⟩
  · rintro ⟨g, hg, hn, rfl, hrest⟩
    have hword := takeWord_eq_some_iff.2
      (rfl : word.toList ++ (g ++ (name.toList ++ rest)) = word.toList ++ _)
    have hgap := takeGap_eq_some_iff.2 ⟨g, hg, rfl, hn.not_isGap_head rest⟩
    have hname := takeName_eq_some_iff.2 ⟨hn, rfl, hrest⟩
    simp [takeNamed, hword, hgap, hname]

theorem takeCounted_eq_some_iff {word : String} {cs rest : List Char} {name : String}
    {count : UInt16} :
    takeCounted word cs = some (name, count, rest) ↔
      ∃ g h ds, Gap g ∧ IsName name ∧ Gap h ∧ Numeral ds count.toNat ∧
        cs = word.toList ++ (g ++ (name.toList ++ (h ++ (ds ++ rest)))) ∧
        ∀ d ∈ rest.head?, ¬ d.isDigit := by
  constructor
  · intro htake
    obtain ⟨⟨name', cs₁⟩, hnamed, htake⟩ := Option.bind_eq_some_iff.1 htake
    obtain ⟨cs₂, hgap, htake⟩ := Option.bind_eq_some_iff.1 htake
    obtain ⟨⟨count', rest'⟩, hcount, heq⟩ := Option.bind_eq_some_iff.1 htake
    obtain ⟨rfl, rfl, rfl⟩ : name' = name ∧ count' = count ∧ rest' = rest := by simpa using heq
    obtain ⟨g, hg, hn, rfl, -⟩ := (takeNamed_eq_some_iff _).1 hnamed
    obtain ⟨h, hh, rfl, -⟩ := takeGap_eq_some_iff.1 hgap
    obtain ⟨ds, hds, rfl, hrest⟩ := takeCount_eq_some_iff.1 hcount
    exact ⟨g, h, ds, hg, hn, hh, hds, rfl, hrest⟩
  · rintro ⟨g, h, ds, hg, hn, hh, hds, rfl, hrest⟩
    have hnamed := (takeNamed_eq_some_iff word).2
      ⟨g, hg, hn, rfl, hh.not_nameChar_head (ds ++ rest)⟩
    have hgap := takeGap_eq_some_iff.2 ⟨h, hh, rfl, hds.not_isGap_head rest⟩
    have hcount := takeCount_eq_some_iff.2 ⟨ds, hds, rfl, hrest⟩
    simp [takeCounted, hnamed, hgap, hcount]

/-- Reads a word and the name of a segment, with the gap after it: what pushes and pops have in
    common. -/
def takeAccess (word : String) (cs : List Char) : Option (Segment × List Char) := do
  let cs ← takeWord word cs
  let cs ← takeGap cs
  let (segment, cs) ← takeSegment cs
  let cs ← takeGap cs
  return (segment, cs)

theorem takeAccess_eq_some_iff {word : String} {cs rest : List Char} {s : Segment} :
    takeAccess word cs = some (s, rest) ↔
      ∃ g h, Gap g ∧ Gap h ∧ cs = word.toList ++ (g ++ (s.name.toList ++ (h ++ rest))) ∧
        ∀ d ∈ rest.head?, ¬ isGap d := by
  constructor
  · intro htake
    obtain ⟨cs₁, hword, htake⟩ := Option.bind_eq_some_iff.1 htake
    obtain ⟨cs₂, hgap, htake⟩ := Option.bind_eq_some_iff.1 htake
    obtain ⟨⟨s', cs₃⟩, hseg, htake⟩ := Option.bind_eq_some_iff.1 htake
    obtain ⟨rest', hgap', heq⟩ := Option.bind_eq_some_iff.1 htake
    obtain ⟨rfl, rfl⟩ : s' = s ∧ rest' = rest := by simpa using heq
    obtain rfl := takeWord_eq_some_iff.1 hword
    obtain ⟨g, hg, rfl, -⟩ := takeGap_eq_some_iff.1 hgap
    obtain rfl := takeSegment_eq_some_iff.1 hseg
    obtain ⟨h, hh, rfl, hrest⟩ := takeGap_eq_some_iff.1 hgap'
    exact ⟨g, h, hg, hh, rfl, hrest⟩
  · rintro ⟨g, h, hg, hh, rfl, hrest⟩
    have hword := takeWord_eq_some_iff.2
      (rfl : word.toList ++ (g ++ (s.name.toList ++ (h ++ rest))) = word.toList ++ _)
    have hgap := takeGap_eq_some_iff.2 ⟨g, hg, rfl, s.not_isGap_head (h ++ rest)⟩
    have hseg := takeSegment_eq_some_iff.2
      (rfl : s.name.toList ++ (h ++ rest) = s.name.toList ++ _)
    have hgap' := takeGap_eq_some_iff.2 ⟨h, hh, rfl, hrest⟩
    simp [takeAccess, hword, hgap, hseg, hgap']

theorem takePush_eq (cs : List Char) :
    takePush cs = (do
      let (segment, cs) ← takeAccess "push" cs
      let (index, cs) ← Text.takeSigned cs
      guard (segment.Admits index)
      return (.push segment (Int32.ofInt index), cs)) := by
  simp [takePush, takeAccess, Option.bind_assoc]

theorem takePop_eq (cs : List Char) :
    takePop cs = (do
      let (segment, cs) ← takeAccess "pop" cs
      let (index, cs) ← takeCount cs
      guard (segment ≠ .constant ∧ segment.Admits index.toNat)
      return (.pop segment index, cs)) := by
  simp [takePop, takeAccess, Option.bind_assoc]

theorem takePush_eq_some_iff {cs rest : List Char} {c : Command} :
    takePush cs = some (c, rest) ↔ (∃ s n, c = .push s n) ∧ Reads cs rest c := by
  rw [takePush_eq]
  constructor
  · intro htake
    obtain ⟨⟨s, cs₁⟩, haccess, htake⟩ := Option.bind_eq_some_iff.1 htake
    obtain ⟨⟨n, rest'⟩, hnum, htake⟩ := Option.bind_eq_some_iff.1 htake
    -- The range is checked after all tokens have been read.
    by_cases hadm : s.Admits n
    · obtain ⟨rfl, rfl⟩ : Command.push s (Int32.ofInt n) = c ∧ rest' = rest := by
        simpa [guard, hadm] using htake
      obtain ⟨g, h, hg, hh, rfl, -⟩ := takeAccess_eq_some_iff.1 haccess
      obtain ⟨ds, hds, rfl, hrest⟩ := takeSigned_eq_some_iff.1 hnum
      obtain ⟨hlo, hhi⟩ := admits_iff.1 hadm
      -- A number in the range of its segment survives the conversion to 32 bits.
      have hn := toInt_ofInt_of_range hlo hhi
      refine ⟨⟨s, _, rfl⟩, "push".toList ++ (g ++ (s.name.toList ++ (h ++ ds))), ?_, ?_, hrest⟩
      · simp
      · exact .push hg hh (hn.symm ▸ hds) (hn.symm ▸ hlo) (hn.symm ▸ hhi)
    · simp [guard, hadm, failure] at htake
  · rintro ⟨⟨s, n, rfl⟩, p, rfl, hp, hrest⟩
    cases hp with
    | @push _ _ g h ds hg hh hds hlo hhi =>
      have haccess : takeAccess "push"
          ("push".toList ++ (g ++ (s.name.toList ++ (h ++ ds))) ++ rest) = some (s, ds ++ rest) :=
        takeAccess_eq_some_iff.2 ⟨g, h, hg, hh, by simp, hds.not_isGap_head rest⟩
      have hnum := takeSigned_eq_some_iff.2 ⟨ds, hds, rfl, hrest⟩
      have hadm := admits_iff.2 ⟨hlo, hhi⟩
      rw [haccess]
      simp [hnum, guard, hadm]

theorem takePop_eq_some_iff {cs rest : List Char} {c : Command} :
    takePop cs = some (c, rest) ↔ (∃ s n, c = .pop s n) ∧ Reads cs rest c := by
  rw [takePop_eq]
  constructor
  · intro htake
    obtain ⟨⟨s, cs₁⟩, haccess, htake⟩ := Option.bind_eq_some_iff.1 htake
    obtain ⟨⟨n, rest'⟩, hnum, htake⟩ := Option.bind_eq_some_iff.1 htake
    by_cases hadm : s ≠ .constant ∧ s.Admits n.toNat
    · obtain ⟨rfl, rfl⟩ : Command.pop s n = c ∧ rest' = rest := by
        simpa [guard, hadm] using htake
      obtain ⟨g, h, hg, hh, rfl, -⟩ := takeAccess_eq_some_iff.1 haccess
      obtain ⟨ds, hds, rfl, hrest⟩ := takeCount_eq_some_iff.1 hnum
      refine ⟨⟨s, _, rfl⟩, "pop".toList ++ (g ++ (s.name.toList ++ (h ++ ds))), ?_, ?_, hrest⟩
      · simp
      · exact .pop hg hh hds hadm.1 (admits_iff.1 hadm.2).2
    · simp [guard, hadm, failure] at htake
  · rintro ⟨⟨s, n, rfl⟩, p, rfl, hp, hrest⟩
    cases hp with
    | @pop _ _ g h ds hg hh hds hs hhi =>
      have haccess : takeAccess "pop"
          ("pop".toList ++ (g ++ (s.name.toList ++ (h ++ ds))) ++ rest) = some (s, ds ++ rest) :=
        takeAccess_eq_some_iff.2 ⟨g, h, hg, hh, by simp, hds.not_isGap_head rest⟩
      have hnum := takeCount_eq_some_iff.2 ⟨ds, hds, rfl, hrest⟩
      -- The constants alone may be negative, so here the lower bound holds by itself.
      have hlo : s.least ≤ (n.toNat : Int) := by
        cases s <;> simp [Segment.least]
      have hadm := admits_iff.2 ⟨hlo, hhi⟩
      rw [haccess]
      simp [hnum, guard, hs, hadm]

theorem takeOperate_eq_some_iff {cs rest : List Char} {c : Command} :
    takeOperate cs = some (c, rest) ↔ (∃ o, c = .operate o) ∧ Reads cs rest c := by
  constructor
  · intro htake
    obtain ⟨⟨o, rest'⟩, ho, heq⟩ := Option.map_eq_some_iff.1 htake
    obtain ⟨rfl, rfl⟩ := Prod.mk.injEq .. ▸ heq
    exact ⟨⟨o, rfl⟩, _, takeOperator_eq_some_iff.1 ho, .operate o, fun _ _ h => h⟩
  · rintro ⟨⟨o, rfl⟩, p, rfl, hp, -⟩
    cases hp
    simp [takeOperate, takeOperator_eq_some_iff.2 rfl]

theorem takeReturn_eq_some_iff {cs rest : List Char} {c : Command} :
    takeReturn cs = some (c, rest) ↔ c = .ret ∧ Reads cs rest c := by
  constructor
  · intro htake
    obtain ⟨rest', hword, heq⟩ := Option.map_eq_some_iff.1 htake
    obtain ⟨rfl, rfl⟩ := Prod.mk.injEq .. ▸ heq
    exact ⟨rfl, _, takeWord_eq_some_iff.1 hword, .ret, fun _ _ h => h⟩
  · rintro ⟨rfl, p, rfl, hp, -⟩
    cases hp
    unfold takeReturn
    rw [takeWord_eq_some_iff.2 rfl]
    rfl

/-! ### Keywords

The first word tells the kind of a command, and no keyword starts with another.  So at most one
alternative of the ordered choice can take a text, whatever the order.
-/

/-- The first word of a command. -/
def Command.keyword (c : Command) : String :=
  c.words.headD ""

/-- The first words of all commands. -/
def keywords : List String :=
  ["push", "pop", "label", "goto", "if-goto", "function", "call", "return"] ++
    Operator.all.map Operator.name

theorem keyword_mem_keywords (c : Command) : c.keyword ∈ keywords := by
  cases c with
  | operate o => exact List.mem_append_right _ (List.mem_map_of_mem (Operator.mem_all o))
  | _ => simp [Command.keyword, Command.words, keywords]

theorem keywords_prefix_free :
    ∀ w ∈ keywords, ∀ w' ∈ keywords, w.toList <+: w'.toList → w = w' := by
  decide

theorem Sentence.keyword_prefix {p : List Char} {c : Command} (h : Sentence p c) :
    c.keyword.toList <+: p := by
  cases h with
  | operate o => exact List.prefix_rfl
  | ret => exact List.prefix_rfl
  | _ => exact List.prefix_append _ _

/-- A text starts with a sentence of one kind at most. -/
theorem Reads.keyword_unique {cs rest rest' : List Char} {c c' : Command}
    (h : Reads cs rest c) (h' : Reads cs rest' c') : c.keyword = c'.keyword := by
  obtain ⟨p, hp, hs, -⟩ := h
  obtain ⟨p', hp', hs', -⟩ := h'
  have hw : c.keyword.toList <+: cs := hs.keyword_prefix.trans ⟨rest, hp.symm⟩
  have hw' : c'.keyword.toList <+: cs := hs'.keyword_prefix.trans ⟨rest', hp'.symm⟩
  -- Two keywords at the start of one text: one of them starts with the other.
  rcases List.prefix_or_prefix_of_prefix hw hw' with hle | hle
  · exact keywords_prefix_free _ (keyword_mem_keywords c) _ (keyword_mem_keywords c') hle
  · exact (keywords_prefix_free _ (keyword_mem_keywords c') _ (keyword_mem_keywords c) hle).symm

/-- An operator's name is none of the other keywords. -/
theorem Operator.name_ne (o : Operator) {word : String}
    (h : word ∈ ["push", "pop", "label", "goto", "if-goto", "function", "call", "return"]) :
    o.name ≠ word := by
  have hall : ∀ o ∈ Operator.all, ∀ word ∈ ["push", "pop", "label", "goto", "if-goto", "function",
      "call", "return"], o.name ≠ word := by decide
  exact hall o (Operator.mem_all o) word h

theorem Command.keyword_eq_push (c : Command) :
    c.keyword = "push" ↔ ∃ s n, c = .push s n := by
  cases c <;> simp [keyword, words, Operator.name_ne]

theorem Command.keyword_eq_pop (c : Command) :
    c.keyword = "pop" ↔ ∃ s n, c = .pop s n := by
  cases c <;> simp [keyword, words, Operator.name_ne]

theorem Command.keyword_eq_label (c : Command) :
    c.keyword = "label" ↔ ∃ name, c = .label name := by
  cases c <;> simp [keyword, words, Operator.name_ne]

theorem Command.keyword_eq_goto (c : Command) :
    c.keyword = "goto" ↔ ∃ name, c = .goto name := by
  cases c <;> simp [keyword, words, Operator.name_ne]

theorem Command.keyword_eq_ifGoto (c : Command) :
    c.keyword = "if-goto" ↔ ∃ name, c = .ifGoto name := by
  cases c <;> simp [keyword, words, Operator.name_ne]

theorem Command.keyword_eq_function (c : Command) :
    c.keyword = "function" ↔ ∃ name count, c = .function name count := by
  cases c <;> simp [keyword, words, Operator.name_ne]

theorem Command.keyword_eq_call (c : Command) :
    c.keyword = "call" ↔ ∃ name count, c = .call name count := by
  cases c <;> simp [keyword, words, Operator.name_ne]

theorem Command.keyword_eq_return (c : Command) :
    c.keyword = "return" ↔ c = .ret := by
  cases c <;> simp [keyword, words, Operator.name_ne]

/-- The reader takes the sentences that start with one of the given keywords. -/
def TakesKinds (kinds : List String) (take : List Char → Option (Command × List Char)) : Prop :=
  ∀ cs c rest, take cs = some (c, rest) ↔ c.keyword ∈ kinds ∧ Reads cs rest c

/-- The ordered choice of two readers with different keywords takes what either takes. -/
theorem TakesKinds.orElse {kinds kinds' : List String}
    {take take' : List Char → Option (Command × List Char)}
    (h : TakesKinds kinds take) (h' : TakesKinds kinds' take')
    (hdisj : ∀ w ∈ kinds, w ∉ kinds') :
    TakesKinds (kinds ++ kinds') (fun cs => take cs <|> take' cs) := by
  intro cs c rest
  rw [List.mem_append]
  cases htake : take cs with
  | none =>
    -- What the first reader does not take is no sentence of its kinds.
    have hnone : ¬ (c.keyword ∈ kinds ∧ Reads cs rest c) := by
      rw [← h cs c rest, htake]
      simp
    show (take cs <|> take' cs) = _ ↔ _
    rw [htake, Option.orElse_eq_orElse, Option.orElse_eq_or, Option.none_or, h' cs c rest]
    tauto
  | some read =>
    obtain ⟨hk, hr⟩ := (h cs read.1 read.2).1 htake
    show (take cs <|> take' cs) = _ ↔ _
    rw [htake, Option.orElse_eq_orElse, Option.orElse_eq_or, Option.some_or, ← htake, h cs c rest]
    constructor
    · rintro ⟨hk, hr⟩
      exact ⟨.inl hk, hr⟩
    · rintro ⟨hk' | hk', hr'⟩
      · exact ⟨hk', hr'⟩
      · -- The first reader has taken a text that starts with a keyword of the second.
        exact absurd (hr.keyword_unique hr' ▸ hk') (hdisj _ hk)

theorem takePush_takesKinds : TakesKinds ["push"] takePush := by
  intro cs c rest
  rw [takePush_eq_some_iff, List.mem_singleton, c.keyword_eq_push]

theorem takePop_takesKinds : TakesKinds ["pop"] takePop := by
  intro cs c rest
  rw [takePop_eq_some_iff, List.mem_singleton, c.keyword_eq_pop]

theorem takeOperate_takesKinds : TakesKinds (Operator.all.map Operator.name) takeOperate := by
  intro cs c rest
  have hkind : c.keyword ∈ Operator.all.map Operator.name ↔ ∃ o, c = .operate o := by
    cases c with
    | operate o =>
      exact ⟨fun _ => ⟨o, rfl⟩, fun _ => List.mem_map_of_mem (Operator.mem_all o)⟩
    | _ => simp [Command.keyword, Command.words, Operator.all, Operator.name]
  rw [takeOperate_eq_some_iff, hkind]

theorem takeReturn_takesKinds : TakesKinds ["return"] takeReturn := by
  intro cs c rest
  rw [takeReturn_eq_some_iff, List.mem_singleton, c.keyword_eq_return]

/-- The three kinds that are a word and a name are read in the same way. -/
theorem takeNamed_takesKinds (word : String) (make : String → Command)
    (hkind : ∀ c : Command, c.keyword = word ↔ ∃ name, c = make name)
    (hsentence : ∀ p name, Sentence p (make name) ↔
      ∃ g, Gap g ∧ IsName name ∧ p = word.toList ++ (g ++ name.toList))
    (hcontinues : ∀ name d, Continues (make name) d ↔ NameChar d) :
    TakesKinds [word] fun cs => (takeNamed word cs).map fun (name, cs) => (make name, cs) := by
  intro cs c rest
  rw [List.mem_singleton, hkind]
  constructor
  · intro htake
    obtain ⟨⟨name, rest'⟩, hnamed, heq⟩ := Option.map_eq_some_iff.1 htake
    obtain ⟨rfl, rfl⟩ := Prod.mk.injEq .. ▸ heq
    obtain ⟨g, hg, hn, rfl, hrest⟩ := (takeNamed_eq_some_iff _).1 hnamed
    refine ⟨⟨name, rfl⟩, word.toList ++ (g ++ name.toList), by simp, ?_, ?_⟩
    · exact (hsentence _ _).2 ⟨g, hg, hn, rfl⟩
    · intro d hd hc
      exact hrest d hd ((hcontinues name d).1 hc)
  · rintro ⟨⟨name, rfl⟩, p, rfl, hp, hrest⟩
    obtain ⟨g, hg, hn, rfl⟩ := (hsentence _ _).1 hp
    have hnamed : takeNamed word (word.toList ++ (g ++ name.toList) ++ rest) = some (name, rest) :=
      (takeNamed_eq_some_iff _).2
        ⟨g, hg, hn, by simp, fun d hd h => hrest d hd ((hcontinues name d).2 h)⟩
    exact Option.map_eq_some_iff.2 ⟨_, hnamed, rfl⟩

/-- The two kinds that are a word, a name and a number are read in the same way. -/
theorem takeCounted_takesKinds (word : String) (make : String → UInt16 → Command)
    (hkind : ∀ c : Command, c.keyword = word ↔ ∃ name count, c = make name count)
    (hsentence : ∀ p name count, Sentence p (make name count) ↔
      ∃ g h ds, Gap g ∧ IsName name ∧ Gap h ∧ Numeral ds count.toNat ∧
        p = word.toList ++ (g ++ (name.toList ++ (h ++ ds))))
    (hcontinues : ∀ name count d, Continues (make name count) d ↔ d.isDigit) :
    TakesKinds [word] fun cs =>
      (takeCounted word cs).map fun (name, count, cs) => (make name count, cs) := by
  intro cs c rest
  rw [List.mem_singleton, hkind]
  constructor
  · intro htake
    obtain ⟨⟨name, count, rest'⟩, hcounted, heq⟩ := Option.map_eq_some_iff.1 htake
    obtain ⟨rfl, rfl⟩ := Prod.mk.injEq .. ▸ heq
    obtain ⟨g, h, ds, hg, hn, hh, hds, rfl, hrest⟩ := takeCounted_eq_some_iff.1 hcounted
    refine ⟨⟨name, count, rfl⟩, word.toList ++ (g ++ (name.toList ++ (h ++ ds))), by simp, ?_, ?_⟩
    · exact (hsentence _ _ _).2 ⟨g, h, ds, hg, hn, hh, hds, rfl⟩
    · intro d hd hc
      exact hrest d hd ((hcontinues name count d).1 hc)
  · rintro ⟨⟨name, count, rfl⟩, p, rfl, hp, hrest⟩
    obtain ⟨g, h, ds, hg, hn, hh, hds, rfl⟩ := (hsentence _ _ _).1 hp
    have hcounted : takeCounted word (word.toList ++ (g ++ (name.toList ++ (h ++ ds))) ++ rest)
        = some (name, count, rest) :=
      takeCounted_eq_some_iff.2 ⟨g, h, ds, hg, hn, hh, hds, by simp,
        fun d hd hdigit => hrest d hd ((hcontinues name count d).2 hdigit)⟩
    exact Option.map_eq_some_iff.2 ⟨_, hcounted, rfl⟩

theorem takeBranch_takesKinds : TakesKinds ["label", "goto", "if-goto"] takeBranch := by
  have hlabel := takeNamed_takesKinds "label" .label
    Command.keyword_eq_label
    (fun p name => ⟨fun h => by cases h; exact ⟨_, ‹_›, ‹_›, rfl⟩,
      fun ⟨g, hg, hn, hp⟩ => hp ▸ .label hg hn⟩) (fun _ _ => Iff.rfl)
  have hgoto := takeNamed_takesKinds "goto" .goto
    Command.keyword_eq_goto
    (fun p name => ⟨fun h => by cases h; exact ⟨_, ‹_›, ‹_›, rfl⟩,
      fun ⟨g, hg, hn, hp⟩ => hp ▸ .goto hg hn⟩) (fun _ _ => Iff.rfl)
  have hifGoto := takeNamed_takesKinds "if-goto" .ifGoto
    Command.keyword_eq_ifGoto
    (fun p name => ⟨fun h => by cases h; exact ⟨_, ‹_›, ‹_›, rfl⟩,
      fun ⟨g, hg, hn, hp⟩ => hp ▸ .ifGoto hg hn⟩) (fun _ _ => Iff.rfl)
  exact hlabel.orElse (hgoto.orElse hifGoto (by decide)) (by decide)

theorem takeFunction_takesKinds : TakesKinds ["function", "call"] takeFunction := by
  have hfunction := takeCounted_takesKinds "function" .function
    Command.keyword_eq_function
    (fun p name count => ⟨fun h => by cases h; exact ⟨_, _, _, ‹_›, ‹_›, ‹_›, ‹_›, rfl⟩,
      fun ⟨g, h, ds, hg, hn, hh, hds, hp⟩ => hp ▸ .function hg hn hh hds⟩)
    (fun _ _ _ => Iff.rfl)
  have hcall := takeCounted_takesKinds "call" .call
    Command.keyword_eq_call
    (fun p name count => ⟨fun h => by cases h; exact ⟨_, _, _, ‹_›, ‹_›, ‹_›, ‹_›, rfl⟩,
      fun ⟨g, h, ds, hg, hn, hh, hds, hp⟩ => hp ▸ .call hg hn hh hds⟩)
    (fun _ _ _ => Iff.rfl)
  exact hfunction.orElse hcall (by decide)

/-! ### Reading a line -/

/-- **The reader and the grammar agree.**  A command is taken from the start of a text exactly if
    the text starts with a sentence for it whose last token ends there. -/
theorem take?_eq_some_iff {cs rest : List Char} {c : Command} :
    Command.take? cs = some (c, rest) ↔ Reads cs rest c := by
  -- The alternatives are put together in the order of the reader; their kinds are disjoint.
  have hall := takePush_takesKinds.orElse (takePop_takesKinds.orElse
    (takeOperate_takesKinds.orElse (takeBranch_takesKinds.orElse
      (takeFunction_takesKinds.orElse takeReturn_takesKinds (by decide)) (by decide)) (by decide))
    (by decide)) (by decide)
  -- Together they are all kinds, so that no sentence is left out.
  have hmem : c.keyword ∈ ["push"] ++ (["pop"] ++ (Operator.all.map Operator.name ++
      (["label", "goto", "if-goto"] ++ (["function", "call"] ++ ["return"])))) := by
    have hk := keyword_mem_keywords c
    simp only [keywords, List.mem_append, List.mem_cons] at hk ⊢
    tauto
  exact (hall cs c rest).trans ⟨fun h => h.2, fun h => ⟨hmem, h⟩⟩

theorem sentence_iff_take? {cs : List Char} {c : Command} :
    Sentence cs c ↔ Command.take? cs = some (c, []) := by
  rw [take?_eq_some_iff]
  constructor
  · intro h
    exact ⟨cs, by simp, h, by simp⟩
  · rintro ⟨p, hp, h, -⟩
    rwa [show cs = p by simpa using hp]

theorem trails_iff_take? {cs rest : List Char} :
    Trails cs rest ↔ rest ≠ [] ∧ ∃ c, Command.take? cs = some (c, rest) := by
  unfold Trails
  refine and_congr_right fun _ => ?_
  constructor
  · rintro ⟨p, c, hp, hs, hrest⟩
    exact ⟨c, take?_eq_some_iff.2 ⟨p, hp, hs, hrest⟩⟩
  · rintro ⟨c, htake⟩
    obtain ⟨p, hp, hs, hrest⟩ := take?_eq_some_iff.1 htake
    exact ⟨p, c, hp, hs, hrest⟩

/-- **Lines are classified as the grammar says.**  Let `t` be the part of a line before the first
    `//`, without the blank characters at its ends.  It is a sentence, and then the line is read as
    the command that it spells; or it is a sentence with something after it; or it is neither.  The
    error names the line's number and the text `t`, and for the second case what stands after the
    sentence, again without blank ends. -/
theorem ofNumberedLine_classifies (number : Nat) (line : List Char) :
    ∃ t, (∀ t', Text.Stripped line t' ↔ t' = t) ∧
      (∀ c, Command.ofNumberedLine number line = .ok c ↔ Sentence t c) ∧
      (∀ text rest,
        Command.ofNumberedLine number line = .error (.line number (.trailing text rest)) ↔
          (¬ ∃ c, Sentence t c) ∧ text = String.ofList t ∧
            ∃ r, Trails t r ∧ ∃ u, Text.Trimmed r u ∧ rest = String.ofList u) ∧
      (∀ text, Command.ofNumberedLine number line = .error (.line number (.invalid text)) ↔
        (¬ ∃ c, Sentence t c) ∧ (¬ ∃ r, Trails t r) ∧ text = String.ofList t) ∧
      ((∃ c, Command.ofNumberedLine number line = .ok c) ∨
        (∃ text rest,
          Command.ofNumberedLine number line = .error (.line number (.trailing text rest))) ∨
        ∃ text, Command.ofNumberedLine number line = .error (.line number (.invalid text))) := by
  refine ⟨Text.bare line, fun _ => Text.stripped_iff, ?_⟩
  simp only [sentence_iff_take?, trails_iff_take?, Text.trimmed_iff, exists_eq_left,
    Command.ofNumberedLine, Command.ofLine]
  cases htake : Command.take? (Text.bare line) with
  | none => simp [Except.mapError, eq_comm]
  | some read =>
    obtain ⟨c, rest⟩ := read
    cases rest with
    | nil => simp [Except.mapError]
    | cons d rest =>
      -- What is left over is the only rest that the grammar allows.
      have hrest : ∀ r, (r ≠ [] ∧ ∃ c', some (c, d :: rest) = some (c', r)) ↔ r = d :: rest := by
        intro r
        constructor
        · rintro ⟨-, c', heq⟩
          exact (Prod.mk.inj (Option.some.inj heq)).2.symm
        · rintro rfl
          exact ⟨by simp, c, rfl⟩
      simp only [hrest, exists_eq_left]
      simp [Except.mapError, eq_comm]

/-! ### Commands that can be read -/

/-- Some line is read as the command. -/
def Command.Accepted (c : Command) : Prop :=
  ∃ line, Command.ofLine line = .ok c

/-- What the grammar promises about the operands of a command: an index is in the range of its
    segment, nothing is popped into a constant, and names are names. -/
def Command.Fits : Command → Prop
  | .push segment index => segment.least ≤ index.toInt ∧ index.toInt ≤ segment.greatest
  | .pop segment index => segment ≠ .constant ∧ (index.toNat : Int) ≤ segment.greatest
  | .label name | .goto name | .ifGoto name | .function name _ | .call name _ => IsName name
  | .operate _ | .ret => True

theorem ofLine_eq_ok_iff {line : List Char} {c : Command} :
    Command.ofLine line = .ok c ↔ Sentence (Text.bare line) c := by
  rw [sentence_iff_take?, Command.ofLine]
  cases Command.take? (Text.bare line) with
  | none => simp
  | some read =>
    obtain ⟨c', rest⟩ := read
    cases rest <;> simp

/-- The number of a line matters only for what is wrong with it. -/
theorem ofNumberedLine_eq_ok_iff {number : Nat} {line : List Char} {c : Command} :
    Command.ofNumberedLine number line = .ok c ↔ Command.ofLine line = .ok c := by
  unfold Command.ofNumberedLine
  cases Command.ofLine line <;> simp [Except.mapError]

/-- Each rule of the grammar says what its operands are. -/
theorem Sentence.fits {text : List Char} {c : Command} (h : Sentence text c) : c.Fits := by
  cases h with
  | push _ _ _ hlo hhi => exact ⟨hlo, hhi⟩
  | pop _ _ _ hs hhi => exact ⟨hs, hhi⟩
  | label _ hn | goto _ hn | ifGoto _ hn => exact hn
  | function _ hn | call _ hn => exact hn
  | operate | ret => trivial

theorem Command.Accepted.fits {c : Command} (h : c.Accepted) : c.Fits := by
  obtain ⟨line, hline⟩ := h
  exact (ofLine_eq_ok_iff.1 hline).fits

end HackVM
