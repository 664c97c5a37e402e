import Rehome.Text.Basic

/-!
# Blanks

The characters of the Unicode property `White_Space`, and the text without those at its ends. Of
them only spaces and tabs are sure to stay on a line.
-/

namespace Rehome

/-- The first and last code points of the ranges that make up `White_Space`. -/
def blankRanges : List (Nat × Nat) :=
  [(0x09, 0x0D), (0x20, 0x20), (0x85, 0x85), (0xA0, 0xA0), (0x1680, 0x1680), (0x2000, 0x200A),
    (0x2028, 0x2029), (0x202F, 0x202F), (0x205F, 0x205F), (0x3000, 0x3000)]

/-- A character of `White_Space`. -/
def isBlank (c : Char) : Bool :=
  blankRanges.any fun (first, last) => first ≤ c.toNat && c.toNat ≤ last

namespace Text

/-- The text without its leading blanks. -/
def trimStart (text : Text) : Text :=
  text.dropWhile isBlank

/-- The blanks that are sure to stay on a line. -/
def isSpace (c : Char) : Bool :=
  c = ' ' || c = '\t'

/-- The spaces and tabs that the text begins with. -/
def spaces (text : Text) : Text :=
  text.takeWhile isSpace

/-- The text without its leading spaces and tabs. -/
def afterSpaces (text : Text) : Text :=
  text.dropWhile isSpace

theorem spaces_append_afterSpaces (text : Text) : text.spaces ++ text.afterSpaces = text :=
  List.takeWhile_append_dropWhile

/-- The text without the blanks at its two ends. -/
def trim (text : Text) : Text :=
  (trimStart (trimStart text).reverse).reverse

end Text

end Rehome
