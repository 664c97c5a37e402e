import Rehome.Text.Blank

/-!
# Where a new import goes

A file may carry the client directive, the literal `'use client'` or `"use client"`. A new import
goes on a line of its own right after it. The literal is searched as it is written, anywhere in the
text, and the single-quoted spelling counts first. Without one the import becomes the first line.
-/

namespace Rehome

namespace Text

/-- The line break that the text uses first: a carriage return and a line feed, or a line feed
alone, also when there is no break. -/
def lineBreak : Text → Text
  | [] => ['\n']
  | '\r' :: '\n' :: _ => ['\r', '\n']
  | '\n' :: _ => ['\n']
  | _ :: rest => lineBreak rest

end Text

namespace Placement

/-- The spellings of the client directive in the order in which they are tried. -/
def spellings : List Text :=
  ["'use client'".toList, "\"use client\"".toList]

/-- The bytes that the client directive covers. -/
def directive? (text : Text) : Option (Nat × Nat) :=
  spellings.findSome? fun spelling =>
    (Text.find? spelling text).map fun start => (start, start + spelling.byteSize)

/-- How many bytes a closing semicolon takes, with the spaces and tabs before it; zero if there is
no semicolon. -/
def closingSize (text : Text) : Nat :=
  match text.afterSpaces with
  | ';' :: rest => text.byteSize - Text.byteSize rest
  | _ => 0

/-- The byte position of a new import: after the directive and its semicolon. -/
def point? (text : Text) : Option Nat :=
  (directive? text).map fun (_, stop) => stop + closingSize (text.dropBytes stop)

/-- The text with a new line after the directive, or before everything if it has none. -/
def insert (text line : Text) : Text :=
  match point? text with
  | some point =>
    let after := text.dropBytes point
    text.takeBytes point ++ after.lineBreak ++ line ++ after
  | none => line ++ text.lineBreak ++ text

end Placement

end Rehome
