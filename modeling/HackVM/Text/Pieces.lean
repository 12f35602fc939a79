import HackVM.Text.Bytes

namespace HackVM.Text

/-!
# Bytes that need not be UTF-8

The name of a file is any bytes. To be shown they are cut into characters, and into runs of bytes
between them that are part of no character. Such a run goes on as long as it could still become a
character.

* `pieces` cuts bytes apart;
* `shown` is the text that stands for bytes where they are printed.
-/

/-- A part of bytes that need not be UTF-8. -/
inductive Piece where
  /-- A character. -/
  | char (c : Char)
  /-- Bytes that belong to no character. -/
  | broken (bytes : Bytes)
  deriving DecidableEq, Repr

/-- The number of bytes that follow the first byte of a character. -/
def tailSize (first : UInt8) : Nat :=
  if first < 0xC2 then 0
  else if first < 0xE0 then 1
  else if first < 0xF0 then 2
  else if first < 0xF5 then 3
  else 0

/-- Whether a byte can stand in a character after its first byte. -/
def isTail (b : UInt8) : Bool :=
  0x80 ≤ b && b ≤ 0xBF

/-- Whether a byte can be the second of a character. After four of the first bytes some cannot: the
    character would have a shorter form, or there is none with its number. -/
def isSecond (first second : UInt8) : Bool :=
  isTail second && (first != 0xE0 || 0xA0 ≤ second) && (first != 0xED || second ≤ 0x9F) &&
    (first != 0xF0 || 0x90 ≤ second) && (first != 0xF4 || second ≤ 0x8F)

/-- The number of bytes after the first that belong to the same piece. -/
def pieceTail (first : UInt8) : Bytes → Nat
  | [] => 0
  | second :: rest =>
    if tailSize first = 0 ∨ !isSecond first second then 0
    else 1 + ((rest.take (tailSize first - 1)).takeWhile isTail).length

/-- The first piece of bytes. -/
def firstPiece (first : UInt8) (rest : Bytes) : Piece :=
  let bytes := first :: rest.take (pieceTail first rest)
  match decode? bytes with
  | some [c] => .char c
  | _ => .broken bytes

/-- The pieces of bytes after a number of them that belong to a piece before. -/
def piecesAfter : Nat → Bytes → List Piece
  | _, [] => []
  | n + 1, _ :: rest => piecesAfter n rest
  | 0, first :: rest => firstPiece first rest :: piecesAfter (pieceTail first rest) rest

/-- The pieces of bytes. -/
def pieces (bytes : Bytes) : List Piece :=
  piecesAfter 0 bytes

/-- The character that is shown for a piece. -/
def Piece.shown : Piece → Char
  | char c => c
  | broken _ => '\uFFFD'

/-- The text that is shown for bytes. -/
def shown (bytes : Bytes) : String :=
  String.ofList ((pieces bytes).map Piece.shown)

end HackVM.Text
