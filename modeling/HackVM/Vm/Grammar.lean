import HackVM.Text.Blank
import HackVM.Vm.Command

namespace HackVM

/-!
# The grammar of a command line

A line holds one command, perhaps with a comment. Its words are separated by spaces and tabs; other
blank characters are allowed only at the ends of the line.

* `Segment.Admits` says which indices a segment has;
* `Grammar.takePush`, …, `Grammar.takeReturn` read one kind of command at the start of a text and
  give what follows it;
* `Command.take?` tries the kinds in turn;
* `Command.ofLine` reads a whole line: what it refuses is a `LineFault`.
-/

/-- The largest number that an address instruction can load. -/
def maxImmediate : Int := 0x7FFF

/-- The least index of a segment. Only constants may be negative. -/
def Segment.lowest : Segment → Int
  | .constant => -maxImmediate
  | _ => 0

/-- The greatest index of a segment. -/
def Segment.highest : Segment → Int
  | .pointer => 1
  | .temp => 7
  | _ => maxImmediate

/-- The indices of a segment that a command may name. -/
def Segment.Admits (segment : Segment) (index : Int) : Prop :=
  segment.lowest ≤ index ∧ index ≤ segment.highest

instance (segment : Segment) (index : Int) : Decidable (segment.Admits index) :=
  inferInstanceAs (Decidable (_ ∧ _))

namespace Grammar

/-! ### Words, gaps, numbers and names -/

/-- The characters that separate words. -/
def isGap (c : Char) : Bool :=
  c == ' ' || c == '\t'

/-- The characters of a name. -/
def isNameChar (c : Char) : Bool :=
  c.isAlphanum || c == '_' || c == '.' || c == '$' || c == ':'

/-- Reads a given word. -/
def takeWord (word : String) (cs : List Char) : Option (List Char) :=
  word.toList.isPrefixOf? cs

/-- Reads at least one space or tab, and all that follow it. -/
def takeGap : List Char → Option (List Char)
  | [] => none
  | c :: cs => if isGap c then some (cs.dropWhile isGap) else none

/-- Reads the longest non-empty run of name characters, which must not start with a digit. -/
def takeName (cs : List Char) : Option (String × List Char) :=
  match cs.takeWhile isNameChar with
  | [] => none
  | c :: name =>
    if c.isDigit then none else some (String.ofList (c :: name), cs.dropWhile isNameChar)

/-- Reads a number of at most sixteen bits. -/
def takeCount (cs : List Char) : Option (UInt16 × List Char) := do
  let (n, cs) ← Text.takeDigits cs
  guard (n < UInt16.size)
  return (UInt16.ofNat n, cs)

/-- Reads the name of a segment. -/
def takeSegment (cs : List Char) : Option (Segment × List Char) :=
  Segment.all.findSome? fun s => (takeWord s.name cs).map (s, ·)

/-- Reads the name of an operator. -/
def takeOperator (cs : List Char) : Option (Operator × List Char) :=
  Operator.all.findSome? fun o => (takeWord o.name cs).map (o, ·)

/-! ### The kinds of commands -/

/-- Reads `push` with a segment and an index that the segment has. -/
def takePush (cs : List Char) : Option (Command × List Char) := do
  let cs ← takeWord "push" cs
  let cs ← takeGap cs
  let (segment, cs) ← takeSegment cs
  let cs ← takeGap cs
  let (index, cs) ← Text.takeSigned cs
  guard (segment.Admits index)
  return (.push segment (Int32.ofInt index), cs)

/-- Reads `pop` with a segment other than the constants and an index that the segment has. -/
def takePop (cs : List Char) : Option (Command × List Char) := do
  let cs ← takeWord "pop" cs
  let cs ← takeGap cs
  let (segment, cs) ← takeSegment cs
  let cs ← takeGap cs
  let (index, cs) ← takeCount cs
  guard (segment ≠ .constant ∧ segment.Admits index.toNat)
  return (.pop segment index, cs)

/-- Reads an operator. -/
def takeOperate (cs : List Char) : Option (Command × List Char) :=
  (takeOperator cs).map fun (operator, cs) => (.operate operator, cs)

/-- Reads a word and a name. -/
def takeNamed (word : String) (cs : List Char) : Option (String × List Char) := do
  let cs ← takeWord word cs
  let cs ← takeGap cs
  takeName cs

/-- Reads a word, a name and a number. -/
def takeCounted (word : String) (cs : List Char) : Option (String × UInt16 × List Char) := do
  let (name, cs) ← takeNamed word cs
  let cs ← takeGap cs
  let (count, cs) ← takeCount cs
  return (name, count, cs)

/-- Reads a label or a jump. -/
def takeBranch (cs : List Char) : Option (Command × List Char) :=
  (takeNamed "label" cs).map (fun (name, cs) => (.label name, cs)) <|>
  (takeNamed "goto" cs).map (fun (name, cs) => (.goto name, cs)) <|>
  (takeNamed "if-goto" cs).map (fun (name, cs) => (.ifGoto name, cs))

/-- Reads a function declaration or a call. -/
def takeFunction (cs : List Char) : Option (Command × List Char) :=
  (takeCounted "function" cs).map (fun (name, count, cs) => (.function name count, cs)) <|>
  (takeCounted "call" cs).map (fun (name, count, cs) => (.call name count, cs))

/-- Reads `return`. -/
def takeReturn (cs : List Char) : Option (Command × List Char) :=
  (takeWord "return" cs).map (Command.ret, ·)

end Grammar

/-- Reads the command at the start of a text, and gives what follows it. -/
def Command.take? (cs : List Char) : Option (Command × List Char) :=
  Grammar.takePush cs <|> Grammar.takePop cs <|> Grammar.takeOperate cs <|>
  Grammar.takeBranch cs <|> Grammar.takeFunction cs <|> Grammar.takeReturn cs

/-! ### Whole lines -/

/-- Why a line is not a command. -/
inductive LineFault where
  /-- The text does not start with a command. -/
  | invalid (text : String)
  /-- The text starts with a command, and something follows it. -/
  | trailing (text rest : String)
  deriving DecidableEq, Repr

/-- Reads a line, which may have a comment and blank characters at the ends. -/
def Command.ofLine (line : List Char) : Except LineFault Command :=
  let text := Text.bare line
  match Command.take? text with
  | some (command, []) => .ok command
  | some (_, rest) => .error (.trailing (String.ofList text) (String.ofList (Text.trim rest)))
  | none => .error (.invalid (String.ofList text))

end HackVM
