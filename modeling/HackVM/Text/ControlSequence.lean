namespace HackVM.Text

/-!
# Control sequences

A terminal does not show every character that it is sent. Control characters, and the sequences
that an escape character opens, tell it to move, to ring or to change colours. A log that is not
shown on a terminal leaves them out.

* `Sequence` is how far a sequence has been read, and `Sequence.next` reads on;
* `Sequence.shows` says which characters are shown inside one;
* `withoutControls` is the text that is left, which is the whole text if all of it is visible
  (`withoutControls_of_forall`).
-/

/-- How far a control sequence has been read. -/
inductive Sequence where
  /-- No sequence is open. -/
  | outside
  /-- An escape character was read. -/
  | escape
  /-- A sequence of two or more characters whose last one decides. -/
  | intermediate
  /-- A control sequence: parameters, then a letter. -/
  | control
  /-- A device control string, before its parameters. -/
  | device
  /-- A device control string, in its parameters. -/
  | deviceParameter
  /-- A device control string, after its parameters. -/
  | deviceIntermediate
  /-- A string that only a string terminator ends. -/
  | string
  /-- A command to the operating system, which a bell ends too. -/
  | command
  deriving DecidableEq, Repr

/-- Whether a character is in a range of code points. -/
def isBetween (first last : Nat) (c : Char) : Bool :=
  first ≤ c.toNat && c.toNat ≤ last

/-- Whether a character lays out text: a tab, a newline, a form feed or a carriage return. -/
def isLayout (c : Char) : Bool :=
  c == '\t' || c == '\n' || c == '\x0c' || c == '\r'

/-- Whether a character is visible or lays out text, outside of sequences. -/
def isVisible (c : Char) : Bool :=
  isLayout c || 0x20 ≤ c.toNat && c.toNat ≠ 0x7F

/-- Whether a character has the string terminator among its UTF-8 bytes. -/
def hasTerminator (c : Char) : Bool :=
  (String.utf8EncodeChar c).contains 0x9C

namespace Sequence

/-- Whether a character is shown. Inside a string nothing is, and inside another sequence only
    layout. -/
def shows : Sequence → Char → Bool
  | outside, c => isVisible c
  | escape, c | intermediate, c | control, c => isLayout c
  | device, _ | deviceParameter, _ | deviceIntermediate, _ | string, _ | command, _ => false

/-- Reads a character after an escape character. -/
def opened (c : Char) : Sequence :=
  if c = '[' then control
  else if c = ']' then command
  else if c = 'P' then device
  else if c = 'X' ∨ c = '^' ∨ c = '_' then string
  else if isBetween 0x20 0x2F c then intermediate
  else if isBetween 0x30 0x7E c then outside
  else escape

/-- Reads a character. An escape character opens a sequence wherever it stands, and two control
    characters close any. -/
def next (s : Sequence) (c : Char) : Sequence :=
  if c = '\x18' ∨ c = '\x1a' then outside
  else if c = '\x1b' then escape
  else
    match s with
    | outside => outside
    | escape => opened c
    | intermediate => if isBetween 0x30 0x7E c then outside else intermediate
    | control => if isBetween 0x40 0x7E c then outside else control
    | device =>
      if isBetween 0x20 0x2F c then deviceIntermediate
      else if isBetween 0x30 0x3F c then deviceParameter
      else if isBetween 0x40 0x7E c then string
      else device
    | deviceParameter =>
      if isBetween 0x20 0x2F c then deviceIntermediate
      else if isBetween 0x3C 0x7E c then string
      else deviceParameter
    | deviceIntermediate => if isBetween 0x30 0x7E c then string else deviceIntermediate
    | string => if hasTerminator c then outside else string
    | command => if c = '\x07' then outside else command

end Sequence

/-- The visible characters of a text that begins inside a sequence. Layout interrupts a sequence:
    from there on text is `flowing` up to the next control character, where the sequence goes on.
    A character beyond ASCII in flowing text ends the sequence for good. -/
def visibleFrom (s : Sequence) (flowing : Bool) : List Char → List Char
  | [] => []
  | c :: rest =>
    if (if flowing then Sequence.outside else s).shows c then
      c :: visibleFrom (if c.toNat < 0x80 then s else .outside) true rest
    else visibleFrom (s.next c) false rest

/-- A text without control characters and control sequences. -/
def withoutControls (text : String) : String :=
  String.ofList (visibleFrom .outside false text.toList)

/-! ### Visible text stays as it is -/

/-- Text that is all visible stays as it is outside of sequences. -/
theorem visibleFrom_of_forall (flowing : Bool) {text : List Char}
    (h : ∀ c ∈ text, isVisible c = true) : visibleFrom .outside flowing text = text := by
  induction text generalizing flowing with
  | nil => rfl
  | cons c rest ih =>
    have hc : isVisible c = true := h c (by simp)
    have hr : ∀ d ∈ rest, isVisible d = true := fun d hd => h d (by simp [hd])
    simp [visibleFrom, Sequence.shows, hc, ih true hr]

/-- Text that is all visible stays as it is. -/
theorem withoutControls_of_forall {text : String} (h : ∀ c ∈ text.toList, isVisible c = true) :
    withoutControls text = text := by
  rw [withoutControls, visibleFrom_of_forall false h, String.ofList_toList]

end HackVM.Text
