import HackVM.Proofs.Machine.Symbols

namespace HackVM.Asm

open Machine

/-!
# The names of symbols

Symbols of five families share one space of names, and their names are put together without
escaping anything.  This file says how one can still tell them apart.

* `Family` and `Family.Marks` — the families, and how the names of each look: what decides is the
  marks `$`, `.` and `_`, and whether an index comes last;
* `Family.eq_of_marks` — no name looks like two families;
* `Symbol.Regular` — the symbols with the names that one would expect, and `Regular.marks` — they
  look like their family;
* `Symbol.name_inj_of_isGenerated`, `localLabel_inj` and `static_inj` — what one can tell from the
  name of a generated symbol, of a label and of a variable.
-/

/-! ### Generated symbols -/

/-- Whether a symbol belongs to a comparison. -/
def Symbol.isComparison : Symbol → Bool
  | comparisonHolds _ | comparisonEnd _ => true
  | _ => false

/-- Whether a symbol belongs to a call. -/
def Symbol.isReturn : Symbol → Bool
  | returnPoint _ => true
  | _ => false

/-- Whether a symbol is made up by the compiler. -/
def Symbol.isGenerated (s : Symbol) : Bool :=
  s.isComparison || s.isReturn

/-- What the name of a generated symbol is made of: a stem and a number. -/
def Symbol.numbered? : Symbol → Option (String × Nat)
  | comparisonHolds number => some ("JUMP_TRUE", number)
  | comparisonEnd number => some ("JUMP_END", number)
  | returnPoint number => some ("RETURN", number)
  | _ => none

theorem Symbol.exists_numbered? {s : Symbol} (h : s.isGenerated = true) :
    ∃ stem number, s.numbered? = some (stem, number) := by
  cases s with
  | comparisonHolds | comparisonEnd | returnPoint => exact ⟨_, _, rfl⟩
  | register | function | localLabel | static => exact absurd h Bool.false_ne_true

/-- The stems differ. -/
theorem Symbol.numbered?_inj {s t : Symbol} (h : s.numbered? = t.numbered?)
    (hs : s.isGenerated = true) : s = t := by
  cases s with
  | comparisonHolds | comparisonEnd | returnPoint => cases t <;> simp_all [numbered?]
  | register | function | localLabel | static => exact absurd hs Bool.false_ne_true

theorem Symbol.toList_of_numbered? {s : Symbol} {stem : String} {number : Nat}
    (h : s.numbered? = some (stem, number)) :
    s.name.toList = stem.toList ++ '_' :: Text.decimal number := by
  cases s with
  | comparisonHolds | comparisonEnd | returnPoint =>
    obtain ⟨rfl, rfl⟩ := Prod.mk.inj (Option.some.inj h)
    simp [Symbol.name, Text.decimal]
  | register | function | localLabel | static => simp [numbered?] at h

theorem toList_localLabel (owner label : String) :
    (Symbol.localLabel owner label).name.toList = owner.toList ++ '$' :: label.toList := by
  simp [Symbol.name]

theorem not_mem_decimal {c : Char} (hc : ¬ c.isDigit) (n : Nat) : c ∉ Text.decimal n :=
  fun hmem => hc (Text.isDigit_of_mem_decimal hmem)

/-- A number at the end is told from what is before it by the last mark, and it has one written
    form. -/
theorem append_decimal_inj {mark : Char} (hmark : ¬ mark.isDigit) {before before' : List Char}
    {m n : Nat} (h : before ++ mark :: Text.decimal m = before' ++ mark :: Text.decimal n) :
    before = before' ∧ m = n := by
  have hnot : ∀ n, mark ∉ (Text.decimal n).reverse := by
    intro n
    rw [List.mem_reverse]
    exact not_mem_decimal hmark n
  have hsplit := congrArg (fun text : List Char => splitFirst? mark text.reverse) h
  simp only [List.reverse_append, List.reverse_cons, List.append_assoc, List.singleton_append,
    splitFirst?_append (hnot _), Option.some.injEq, Prod.mk.injEq, List.reverse_inj] at hsplit
  obtain ⟨hdigits, hbefore⟩ := hsplit
  refine ⟨hbefore, ?_⟩
  rw [← Text.digitsValue_decimal m, hdigits, Text.digitsValue_decimal]

/-- Generated symbols are known by their names. -/
theorem Symbol.name_inj_of_isGenerated {s t : Symbol} (hs : s.isGenerated = true)
    (ht : t.isGenerated = true) (h : s.name = t.name) : s = t := by
  obtain ⟨stem, m, hparts⟩ := exists_numbered? hs
  obtain ⟨stem', n, hparts'⟩ := exists_numbered? ht
  have htext : stem.toList ++ '_' :: Text.decimal m = stem'.toList ++ '_' :: Text.decimal n := by
    rw [← toList_of_numbered? hparts, ← toList_of_numbered? hparts', h]
  obtain ⟨hstem, rfl⟩ := append_decimal_inj (by decide) htext
  obtain rfl : stem = stem' := String.toList_inj.1 hstem
  exact numbered?_inj (hparts.trans hparts'.symm) hs

/-! ### Families -/

/-- Where a symbol comes from. -/
inductive Family where
  /-- The symbols that are known before a program is read. -/
  | predefined
  /-- The symbols of comparisons and calls. -/
  | generated
  /-- The entries of functions. -/
  | function
  /-- The labels inside functions. -/
  | localLabel
  /-- The variables of source files. -/
  | static
  deriving DecidableEq, Repr

/-- The family of a symbol. -/
def Symbol.family : Symbol → Family
  | register _ => .predefined
  | comparisonHolds _ | comparisonEnd _ | returnPoint _ => .generated
  | function _ => .function
  | localLabel .. => .localLabel
  | static .. => .static

theorem Symbol.family_of_isGenerated {s : Symbol} (h : s.isGenerated = true) :
    s.family = .generated := by
  cases s with
  | comparisonHolds | comparisonEnd | returnPoint => rfl
  | register | function | localLabel | static => exact absurd h Bool.false_ne_true

/-- A name that ends in a point and a number. -/
def EndsInIndex (name : String) : Prop :=
  ∃ before digits, name.toList = before ++ '.' :: digits ∧ digits ≠ [] ∧
    ∀ c ∈ digits, c.isDigit = true

/-- How the names of a family look. -/
def Family.Marks (name : String) : Family → Prop
  | predefined => '$' ∉ name.toList ∧ '.' ∉ name.toList ∧ '_' ∉ name.toList
  | generated => '$' ∉ name.toList ∧ '.' ∉ name.toList ∧ '_' ∈ name.toList
  | function => '$' ∉ name.toList ∧ '.' ∈ name.toList ∧ ¬ EndsInIndex name
  | localLabel => '$' ∈ name.toList
  | static => '$' ∉ name.toList ∧ '.' ∈ name.toList ∧ EndsInIndex name

/-- No name looks like two families. -/
theorem Family.eq_of_marks {f g : Family} {name : String} (hf : f.Marks name) (hg : g.Marks name) :
    f = g := by
  cases f <;> cases g <;> simp_all [Family.Marks]

theorem Family.not_marks {f g : Family} {name : String} (hne : f ≠ g) (hf : f.Marks name) :
    ¬ g.Marks name :=
  fun hg => hne (eq_of_marks hf hg)

theorem marks_predefined {name : String} (h : name ∈ SymbolTable.predefinedNames) :
    Family.predefined.Marks name := by
  have hall : ∀ name ∈ SymbolTable.predefinedNames,
      '$' ∉ name.toList ∧ '.' ∉ name.toList ∧ '_' ∉ name.toList := by
    decide +kernel
  exact hall name h

theorem marks_generated {s : Symbol} (h : s.isGenerated = true) :
    Family.generated.Marks s.name := by
  obtain ⟨stem, number, hs⟩ := Symbol.exists_numbered? h
  have hstem : '$' ∉ stem.toList ∧ '.' ∉ stem.toList := by
    cases s with
    | comparisonHolds | comparisonEnd | returnPoint =>
      obtain ⟨rfl, rfl⟩ := Prod.mk.inj (Option.some.inj hs)
      decide
    | register | function | localLabel | static => exact absurd h Bool.false_ne_true
  have hmark := not_mem_decimal (c := '$') (by decide) number
  have hpoint := not_mem_decimal (c := '.') (by decide) number
  unfold Family.Marks
  rw [Symbol.toList_of_numbered? hs]
  simp [hstem, hmark, hpoint]

theorem marks_localLabel (owner label : String) :
    Family.localLabel.Marks (Symbol.localLabel owner label).name := by
  simp [Family.Marks, toList_localLabel]

/-! ### Regular symbols -/

/-- A function's name that is made like a file's name, a point and a name. -/
structure Conventional (name : String) : Prop where
  /-- There is a point in it. -/
  point : '.' ∈ name.toList
  /-- There is no `$` in it. -/
  mark : '$' ∉ name.toList
  /-- It does not look like a variable. -/
  index : ¬ EndsInIndex name

theorem Conventional.marks {name : String} (h : Conventional name) : Family.function.Marks name :=
  ⟨h.mark, h.point, h.index⟩

/-- A name with a point and without a `$` that does not end in a digit is conventional. -/
theorem conventional_of_getLast? {name : String}
    (h : '.' ∈ name.toList ∧ '$' ∉ name.toList ∧ name.toList.getLast?.any Char.isDigit = false) :
    Conventional name := by
  refine ⟨h.1, h.2.1, ?_⟩
  rintro ⟨before, digits, htext, hne, hdigits⟩
  obtain ⟨c, hc⟩ := Option.ne_none_iff_exists'.1 (mt List.getLast?_eq_none_iff.1 hne)
  have hlast : name.toList.getLast? = some c := by
    rw [htext, List.getLast?_append_cons, List.getLast?_cons, hc]
    rfl
  have hdigit := h.2.2
  rw [hlast, Option.any_some, hdigits c (List.mem_of_getLast? hc)] at hdigit
  exact Bool.false_ne_true hdigit.symm

/-- The symbols whose names are made as one would expect. -/
def Symbol.Regular : Symbol → Prop
  | function name => Conventional name
  | localLabel owner _ => '$' ∉ owner.toList
  | static file _ => '$' ∉ file.toList
  | _ => True

theorem Symbol.regular_of_isGenerated {s : Symbol} (h : s.isGenerated = true) : s.Regular := by
  cases s with
  | comparisonHolds | comparisonEnd | returnPoint => trivial
  | register | function | localLabel | static => exact absurd h Bool.false_ne_true

theorem Symbol.regular_of_predefined {s : Symbol} (h : s.family = .predefined) : s.Regular := by
  cases s with
  | register r => trivial
  | comparisonHolds | comparisonEnd | returnPoint | function | localLabel | static => cases h

theorem Symbol.Regular.marks {s : Symbol} (h : s.Regular) : s.family.Marks s.name := by
  cases s with
  | register r =>
    apply marks_predefined
    cases r <;> decide
  | comparisonHolds n | comparisonEnd n | returnPoint n => exact marks_generated rfl
  | function name => exact Conventional.marks h
  | localLabel owner label => exact marks_localLabel owner label
  | static file index =>
    have hmark : '$' ∉ (Symbol.static file index).name.toList := by
      rw [toList_static]
      have hfile : '$' ∉ file.toList := h
      simpa [hfile] using not_mem_decimal (by decide) index.toNat
    have hindex : EndsInIndex (Symbol.static file index).name :=
      ⟨_, _, toList_static file index, Text.decimal_ne_nil _,
        fun _ hc => Text.isDigit_of_mem_decimal hc⟩
    exact ⟨hmark, by simp [toList_static], hindex⟩

/-- A label is told from its function by the first `$`. -/
theorem localLabel_inj {owner owner' label label' : String} (h : '$' ∉ owner.toList)
    (h' : '$' ∉ owner'.toList)
    (hname : (Symbol.localLabel owner label).name = (Symbol.localLabel owner' label').name) :
    owner = owner' ∧ label = label' := by
  have htext := congrArg (fun name : String => splitFirst? '$' name.toList) hname
  simp only [toList_localLabel, splitFirst?_append h, splitFirst?_append h', Option.some.injEq,
    Prod.mk.injEq, String.toList_inj] at htext
  exact htext

/-- An index is told from its file by the last point, so variables are known by their names,
    whatever their files are called. -/
theorem static_inj {file file' : String} {index index' : UInt16}
    (hname : (Symbol.static file index).name = (Symbol.static file' index').name) :
    file = file' ∧ index = index' := by
  have htext := congrArg String.toList hname
  rw [toList_static, toList_static] at htext
  obtain ⟨hfile, hindex⟩ := append_decimal_inj (by decide) htext
  exact ⟨String.toList_inj.1 hfile, UInt16.toNat_inj.1 hindex⟩

end HackVM.Asm
