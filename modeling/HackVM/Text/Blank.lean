namespace HackVM.Text

/-!
# Blank characters and comments

A line of a source, and a line of assembly, is read after two things are taken off: the comment
that starts at the first `//`, and the blank characters at both ends.

* `isBlank` tells the 25 characters of the Unicode property `White_Space`;
* `trim` drops blank characters at both ends;
* `beforeComment` keeps what stands before the first `//`;
* `bare` does both, and is what both readers of lines look at.
-/

/-- The characters of the Unicode property `White_Space`. -/
def isBlank (c : Char) : Bool :=
  let n := c.toNat
  (0x09 ≤ n && n ≤ 0x0D) || n == 0x20 || n == 0x85 || n == 0xA0 || n == 0x1680 ||
    (0x2000 ≤ n && n ≤ 0x200A) || n == 0x2028 || n == 0x2029 || n == 0x202F || n == 0x205F ||
    n == 0x3000

/-- What is left of a text without the blank characters at its start. -/
def trimStart (cs : List Char) : List Char :=
  cs.dropWhile isBlank

/-- What is left of a text without the blank characters at its end. -/
def trimEnd (cs : List Char) : List Char :=
  (cs.reverse.dropWhile isBlank).reverse

/-- What is left of a text without the blank characters at both ends. -/
def trim (cs : List Char) : List Char :=
  trimEnd (trimStart cs)

/-- The part of a line before the first `//`, or all of it if there is none. -/
def beforeComment : List Char → List Char
  | [] => []
  | '/' :: '/' :: _ => []
  | c :: cs => c :: beforeComment cs

/-- A line without its comment and without blank characters at the ends. -/
def bare (line : List Char) : List Char :=
  trim (beforeComment line)

/-! ### What is left starts and ends with a character that is not blank -/

@[simp] theorem trim_nil : trim [] = [] := rfl

@[simp] theorem bare_nil : bare [] = [] := rfl

/-- The first character that `trimStart` leaves is not blank. -/
theorem isBlank_of_trimStart_eq_cons {cs rest : List Char} {c : Char}
    (h : trimStart cs = c :: rest) : isBlank c = false := by
  induction cs with
  | nil => simp [trimStart] at h
  | cons d ds ih =>
    by_cases hd : isBlank d
    · exact ih (by simpa [trimStart, hd] using h)
    · simp [trimStart, hd] at h
      simpa [← h.1] using hd

/-- A comment that opens the line leaves nothing. -/
@[simp] theorem beforeComment_slash_slash (cs : List Char) :
    beforeComment ('/' :: '/' :: cs) = [] := by
  simp [beforeComment]

end HackVM.Text
