namespace HackVM.Text

/-!
# Decimal numerals

Numbers are written in ASCII digits, without leading zeros; any number of leading zeros is read.

* `takeDigits` splits a text after its longest run of digits and gives the run's value;
* `takeSigned` also takes a minus sign before the digits;
* `decimal` and `signedDecimal` are the written forms of a natural number and of an integer.
-/

/-- The value of a list of decimal digits, most significant first. -/
def digitsValue (digits : List Char) : Nat :=
  Nat.ofDigitChars 10 digits 0

/-- Reads the longest non-empty run of digits at the start of a text: its value and what follows
    it. -/
def takeDigits (cs : List Char) : Option (Nat × List Char) :=
  match cs.takeWhile Char.isDigit with
  | [] => none
  | digits => some (digitsValue digits, cs.dropWhile Char.isDigit)

/-- Reads a run of digits that a minus sign may precede. -/
def takeSigned : List Char → Option (Int × List Char)
  | '-' :: cs => (takeDigits cs).map fun (n, rest) => (-(n : Int), rest)
  | cs => (takeDigits cs).map fun (n, rest) => ((n : Int), rest)

/-- The decimal digits of a natural number. -/
def decimal (n : Nat) : List Char :=
  Nat.toDigits 10 n

/-- The decimal digits of an integer, after a minus sign if it is negative. -/
def signedDecimal : Int → List Char
  | .ofNat n => decimal n
  | .negSucc n => '-' :: decimal (n + 1)

/-! ### Reading what was written -/

/-- The written form of a number has that number as its value. -/
@[simp] theorem digitsValue_decimal (n : Nat) : digitsValue (decimal n) = n :=
  Nat.ofDigitChars_ten_toDigits

theorem decimal_ne_nil (n : Nat) : decimal n ≠ [] :=
  Nat.toDigits_ne_nil

theorem isDigit_of_mem_decimal {n : Nat} {c : Char} (h : c ∈ decimal n) : c.isDigit :=
  Nat.isDigit_of_mem_toDigits (by decide) (by decide) h

end HackVM.Text
