import HackVM.Text.Blank
import Mathlib.Data.List.TakeWhile
import Mathlib.Data.List.Infix

namespace HackVM.Text

/-!
# What is left of a line

`bare` takes the comment and the blank characters at the ends off a line.  This file says what is
left in terms of how the line is put together, and draws two consequences: a text that has neither
is left alone, and no `//` is left in any text.

* `Trimmed`, `BeforeSlashes` and `Stripped` — how a line is put together from what is left and what
  is not, and `stripped_iff` — that is what `bare` leaves;
* `beforeComment_eq_self` and `trim_eq_self` — the texts that nothing is taken off;
* `not_slashes_infix_bare` — nothing that is left holds a comment;
* `bare_cons` — a first character that is neither blank nor a slash stays first.
-/

/-- The text `t` with blank characters around it, which neither starts nor ends with one. -/
def Trimmed (cs t : List Char) : Prop :=
  (∃ left right, cs = left ++ (t ++ right) ∧ (∀ c ∈ left, isBlank c) ∧ ∀ c ∈ right, isBlank c) ∧
    (∀ c ∈ t.head?, ¬ isBlank c) ∧ ∀ c ∈ t.getLast?, ¬ isBlank c

/-- The line goes on after the text `before` with its first `//`, or not at all. -/
def BeforeSlashes (line before : List Char) : Prop :=
  ∃ after, line = before ++ after ∧ (after = [] ∨ ['/', '/'] <+: after) ∧
    -- The first slash after the text must not make a pair with the last one in it.
    ¬ ['/', '/'] <:+: before ++ after.take 1

/-- The text `t` is the part of a line before the first `//`, without the blank characters at its
    ends. -/
def Stripped (line t : List Char) : Prop :=
  ∃ before, BeforeSlashes line before ∧ Trimmed before t

/-! ### Comments -/

theorem beforeComment_cons {c : Char} {cs : List Char} (h : c = '/' → '/' ∉ cs.head?) :
    beforeComment (c :: cs) = c :: beforeComment cs := by
  rw [beforeComment]
  rintro rest rfl rfl
  exact h rfl (by simp)

theorem beforeSlashes_beforeComment (line : List Char) :
    BeforeSlashes line (beforeComment line) := by
  fun_induction beforeComment line with
  | case1 => exact ⟨[], rfl, .inl rfl, by simp⟩
  | case2 cs => exact ⟨'/' :: '/' :: cs, rfl, .inr ⟨cs, rfl⟩, fun h => by simpa using h.length_le⟩
  | case3 c cs hc ih =>
    obtain ⟨after, hline, hafter, hfirst⟩ := ih
    refine ⟨after, by rw [List.cons_append, ← hline], hafter, ?_⟩
    rw [List.cons_append, List.infix_cons_iff]
    rintro (hpre | hinf)
    · -- A pair at the very start would be a pair at the start of the line.
      have hstart : beforeComment cs ++ after.take 1 <+: cs := by
        nth_rewrite 2 [hline]
        exact List.prefix_append_right_inj _ |>.2 (List.take_prefix _ _)
      obtain ⟨rfl, hslash⟩ := List.cons_prefix_cons.1 hpre
      obtain ⟨rest, hrest⟩ := hslash.trans hstart
      exact hc rest rfl hrest.symm
    · exact hfirst hinf

/-- There is one way only to cut a line before its first `//`. -/
theorem beforeSlashes_iff {line before : List Char} :
    BeforeSlashes line before ↔ before = beforeComment line := by
  refine ⟨?_, fun h => h ▸ beforeSlashes_beforeComment line⟩
  rintro ⟨after, rfl, hafter, hfirst⟩
  induction before with
  | nil =>
    rcases hafter with rfl | ⟨rest, rfl⟩
    · rfl
    · simp
  | cons c before ih =>
    rw [List.cons_append] at hfirst
    have hrest := ih fun hinf => hfirst (List.infix_cons_iff.2 (.inr hinf))
    rw [List.cons_append, beforeComment_cons, ← hrest]
    -- The two slashes would be in the text, or the second one the first after it.
    rintro rfl hslash
    refine hfirst (List.infix_cons_iff.2 (.inl ?_))
    cases before with
    | nil =>
      cases after with
      | nil => simp at hslash
      | cons d after =>
        obtain rfl : d = '/' := by simpa using hslash
        simp
    | cons d before =>
      obtain rfl : d = '/' := by simpa using hslash
      simp

/-- No comment is left. -/
theorem not_slashes_infix_beforeComment (cs : List Char) :
    ¬ ['/', '/'] <:+: beforeComment cs := by
  obtain ⟨after, -, -, hfirst⟩ := beforeSlashes_beforeComment cs
  exact fun hinf => hfirst (hinf.trans (List.prefix_append _ _).isInfix)

/-- A text without a comment is left alone. -/
theorem beforeComment_eq_self {cs : List Char} (h : ¬ ['/', '/'] <:+: cs) :
    beforeComment cs = cs :=
  (beforeSlashes_iff.1 ⟨[], by simp, .inl rfl, by simpa using h⟩).symm

theorem not_slashes_infix_of_not_mem {cs : List Char} (h : '/' ∉ cs) : ¬ ['/', '/'] <:+: cs :=
  fun hinf => h (hinf.subset (by simp))

/-! ### Blank ends -/

theorem trimStart_eq_self {cs : List Char} (h : ∀ c ∈ cs.head?, ¬ isBlank c) :
    trimStart cs = cs := by
  cases cs with
  | nil => rfl
  | cons c cs => simp [trimStart, h c (by simp)]

theorem trimEnd_eq_self {cs : List Char} (h : ∀ c ∈ cs.getLast?, ¬ isBlank c) :
    trimEnd cs = cs := by
  have hrev : trimStart cs.reverse = cs.reverse :=
    trimStart_eq_self fun c hc => h c (by simpa using hc)
  rw [trimEnd, show cs.reverse.dropWhile isBlank = cs.reverse from hrev, List.reverse_reverse]

/-- A text whose first and last characters are not blank is left alone. -/
theorem trim_eq_self {cs : List Char} (hhead : ∀ c ∈ cs.head?, ¬ isBlank c)
    (hlast : ∀ c ∈ cs.getLast?, ¬ isBlank c) : trim cs = cs := by
  rw [trim, trimStart_eq_self hhead, trimEnd_eq_self hlast]

theorem trimEnd_cons {c : Char} (h : ¬ isBlank c) (cs : List Char) :
    trimEnd (c :: cs) = c :: trimEnd cs := by
  have hc : ([c] : List Char).dropWhile isBlank = [c] := by simp [h]
  rw [trimEnd, List.reverse_cons, List.dropWhile_append, hc]
  split
  · rename_i hempty
    simp [trimEnd, List.isEmpty_iff.1 hempty]
  · simp [trimEnd]

theorem trimmed_trim (cs : List Char) : Trimmed cs (trim cs) := by
  have hstart : cs.takeWhile isBlank ++ trimStart cs = cs := List.takeWhile_append_dropWhile
  have hend : ∀ xs, trimEnd xs ++ (xs.reverse.takeWhile isBlank).reverse = xs := by
    intro xs
    rw [trimEnd, ← List.reverse_append, List.takeWhile_append_dropWhile, List.reverse_reverse]
  refine ⟨⟨cs.takeWhile isBlank, ((trimStart cs).reverse.takeWhile isBlank).reverse, ?_, ?_, ?_⟩,
    ?_, ?_⟩
  · rw [trim, hend, hstart]
  · exact fun c hc => List.mem_takeWhile_imp hc
  · exact fun c hc => List.mem_takeWhile_imp (List.mem_reverse.1 hc)
  · cases hx : trimStart cs with
    | nil => simp [trim, hx, trimEnd]
    | cons c rest =>
      -- The first character is not blank, so taking off the end does not reach it.
      have hc := isBlank_of_trimStart_eq_cons hx
      rw [trim, hx, trimEnd_cons (by simp [hc])]
      simp [hc]
  · intro c hc
    rw [trim, trimEnd, List.getLast?_reverse] at hc
    have hnot := List.head?_dropWhile_not isBlank (trimStart cs).reverse
    rw [Option.mem_def.1 hc] at hnot
    simpa using hnot

theorem trim_isPart (cs : List Char) : trim cs <:+: cs := by
  obtain ⟨⟨left, right, hcs, -, -⟩, -⟩ := trimmed_trim cs
  exact ⟨left, right, by rw [List.append_assoc]; exact hcs.symm⟩

/-- There is one way only to take off the blank characters at both ends. -/
theorem trimmed_iff {cs t : List Char} : Trimmed cs t ↔ t = trim cs := by
  refine ⟨?_, fun h => h ▸ trimmed_trim cs⟩
  rintro ⟨⟨left, right, rfl, hleft, hright⟩, hhead, hlast⟩
  have hend : trimEnd (t ++ right) = t := by
    rw [trimEnd, List.reverse_append, List.dropWhile_append_of_pos (by simpa using hright)]
    exact trimEnd_eq_self hlast
  rw [trim, trimStart, List.dropWhile_append_of_pos hleft]
  cases t with
  | nil =>
    have hnone : right.dropWhile isBlank = [] := by simpa using hright
    rw [List.nil_append, hnone]
    rfl
  | cons c t =>
    have hstart : (c :: t ++ right).dropWhile isBlank = c :: t ++ right :=
      trimStart_eq_self (by simpa using hhead)
    rw [hstart, hend]

/-! ### Both -/

/-- **What is left of a line** is the part before the first `//`, without blank ends. -/
theorem stripped_iff {line t : List Char} : Stripped line t ↔ t = bare line := by
  simp only [Stripped, beforeSlashes_iff, trimmed_iff, exists_eq_left, bare]

theorem bare_eq_self {cs : List Char} (hslash : ¬ ['/', '/'] <:+: cs)
    (hhead : ∀ c ∈ cs.head?, ¬ isBlank c) (hlast : ∀ c ∈ cs.getLast?, ¬ isBlank c) :
    bare cs = cs := by
  rw [bare, beforeComment_eq_self hslash, trim_eq_self hhead hlast]

/-- Blank characters after a text without slashes are all that is taken off. -/
theorem bare_append_of_blank {cs right : List Char} (hslash : '/' ∉ cs)
    (hhead : ∀ c ∈ cs.head?, ¬ isBlank c) (hlast : ∀ c ∈ cs.getLast?, ¬ isBlank c)
    (hright : ∀ c ∈ right, isBlank c) : bare (cs ++ right) = cs := by
  have hslash' : '/' ∉ cs ++ right := by
    rw [List.mem_append, not_or]
    exact ⟨hslash, fun hmem => absurd (hright _ hmem) (by decide)⟩
  refine (stripped_iff.1 ⟨cs ++ right, ⟨[], by simp, .inl rfl, ?_⟩, ⟨[], right, rfl, ?_, hright⟩,
    hhead, hlast⟩).symm
  · simpa using not_slashes_infix_of_not_mem hslash'
  · simp

theorem not_slashes_infix_bare (cs : List Char) : ¬ ['/', '/'] <:+: bare cs :=
  fun h => not_slashes_infix_beforeComment cs (h.trans (trim_isPart _))

/-- A first character that is neither blank nor a slash stays first. -/
theorem bare_cons {c : Char} (hblank : ¬ isBlank c) (hslash : c ≠ '/') (cs : List Char) :
    bare (c :: cs) = c :: trimEnd (beforeComment cs) := by
  have hbefore : beforeComment (c :: cs) = c :: beforeComment cs :=
    beforeComment_cons fun h => absurd h hslash
  have hstart : trimStart (c :: beforeComment cs) = c :: beforeComment cs :=
    trimStart_eq_self (by simpa using hblank)
  rw [bare, hbefore, trim, hstart, trimEnd_cons hblank]

end HackVM.Text
