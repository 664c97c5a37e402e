import Rehome.Text.Basic
import Rehome.Text.Invisible

/-!
# Quoted texts

A text in double quotes, as a message shows it: quotes and backslashes are escaped, the usual
controls have letters, and whatever has no visible form of its own is given by its code point.
-/

namespace Rehome

namespace Quoted

/-- The hexadecimal digits of a number, in lower case. -/
def hex (n : Nat) : Text :=
  Nat.toDigits 16 n

/-- A character as it stands between the quotes. -/
def char (c : Char) : Text :=
  match c with
  | '"' => ['\\', '"']
  | '\\' => ['\\', '\\']
  | '\t' => ['\\', 't']
  | '\n' => ['\\', 'n']
  | '\r' => ['\\', 'r']
  | '\x00' => ['\\', '0']
  | c => if isInvisible c then ['\\', 'u', '\x7b'] ++ hex c.toNat ++ ['\x7d'] else [c]

/-- The text in quotes. -/
def text (text : Text) : Text :=
  ['"'] ++ text.flatMap char ++ ['"']

/-- Quoted texts in brackets. -/
def list (texts : List Text) : Text :=
  ['['] ++ Text.joinWith [',', ' '] (texts.map text) ++ [']']

end Quoted

end Rehome
