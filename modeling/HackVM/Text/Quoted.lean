import HackVM.Text.Pieces
import HackVM.Text.Unprintable

namespace HackVM.Text

/-!
# Quoted text

Diagnostics show a text between double quotes, so that its ends can be seen. Inside, a quote and a
backslash are escaped, common controls have a short escape, and every other character that cannot
be shown as it is appears as `\u` with its code point in braces. A byte that belongs to no character
appears as `\x` with its value.

* `escape` is a character as it stands inside, and `quote` a whole text;
* `quoteBytes` does the same for bytes that need not be UTF-8.
-/

/-- The hexadecimal digits of a code point in braces, after `\u`. -/
def codePointEscape (c : Char) : List Char :=
  "\\u\x7b".toList ++ Nat.toDigits 16 c.toNat ++ "\x7d".toList

/-- A character as it stands inside a quoted text. -/
def escape (c : Char) : List Char :=
  match c with
  | '\x00' => ['\\', '0']
  | '\t' => ['\\', 't']
  | '\r' => ['\\', 'r']
  | '\n' => ['\\', 'n']
  | '"' => ['\\', '"']
  | '\\' => ['\\', '\\']
  | c => if isUnprintable c then codePointEscape c else [c]

/-- A text between double quotes. -/
def quote (text : String) : String :=
  String.ofList ('"' :: text.toList.flatMap escape ++ ['"'])

/-- A byte by its two hexadecimal digits, after `\x`. -/
def byteEscape (b : UInt8) : List Char :=
  ['\\', 'x', (Nat.digitChar (b.toNat / 16)).toUpper, (Nat.digitChar (b.toNat % 16)).toUpper]

/-- A piece of bytes as it stands inside a quoted text. -/
def Piece.escape : Piece → List Char
  | char c => Text.escape c
  | broken bytes => bytes.flatMap byteEscape

/-- Bytes between double quotes. -/
def quoteBytes (bytes : Bytes) : String :=
  String.ofList ('"' :: (pieces bytes).flatMap Piece.escape ++ ['"'])

end HackVM.Text
