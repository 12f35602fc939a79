namespace HackVM.Text

/-!
# Bytes, lines and UTF-8

A source is a list of bytes. Its lines are the pieces that end at each newline byte, the newline
included; what follows the last newline is a line too unless it is empty. Each line is decoded by
itself, so that a line that is not UTF-8 does not spoil the others.

* `physicalLines` cuts bytes into lines, and `flatten_physicalLines` says that nothing is lost;
* `text?` gives the text of bytes that are UTF-8, and `decode?` its characters;
* `encode` gives the bytes of a text.
-/

/-- The contents of a file. -/
abbrev Bytes := List UInt8

/-- The byte that ends a line. -/
def newline : UInt8 := 10

/-- Puts a byte in front of lines: a newline is a line's end, so what follows it is the next
    line. -/
def consByte (b : UInt8) (lines : List Bytes) : List Bytes :=
  if b = newline then [b] :: lines
  else
    match lines with
    | [] => [[b]]
    | line :: rest => (b :: line) :: rest

/-- The lines of a source, each with the newline that ends it. -/
def physicalLines (bytes : Bytes) : List Bytes :=
  bytes.foldr consByte []

/-- The text with given bytes, if they are UTF-8. -/
def text? (bytes : Bytes) : Option String :=
  String.fromUTF8? bytes.toByteArray

/-- The characters of a line, if its bytes are UTF-8. -/
def decode? (bytes : Bytes) : Option (List Char) :=
  (text? bytes).map String.toList

/-- The UTF-8 bytes of a text. -/
def encode (text : String) : Bytes :=
  text.toUTF8.data.toList

/-- Where bytes are wanted, a text stands for its own. -/
instance : Coe String Bytes := ⟨encode⟩

/-! ### Nothing is lost between the lines -/

@[simp] theorem physicalLines_nil : physicalLines [] = [] := rfl

@[simp] theorem physicalLines_cons (b : UInt8) (bytes : Bytes) :
    physicalLines (b :: bytes) = consByte b (physicalLines bytes) := rfl

@[simp] theorem flatten_consByte (b : UInt8) (lines : List Bytes) :
    (consByte b lines).flatten = b :: lines.flatten := by
  unfold consByte
  split
  · simp
  · cases lines <;> simp

/-- The lines, put together, are the source. -/
@[simp] theorem flatten_physicalLines (bytes : Bytes) : (physicalLines bytes).flatten = bytes := by
  induction bytes with
  | nil => rfl
  | cons b bytes ih => simp [ih]

end HackVM.Text
