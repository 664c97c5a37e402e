import Rehome.Summary.Basic

/-!
# The summary as a text

A line for each changed file and one for the clashes, if they are wanted, and a line for the number
of files. Paths, clashes and the number can be set off by terminal colours.
-/

namespace Rehome

/-- What a part of the text is set off as. -/
inductive Style where
  | path
  | warning
  | count

namespace Style

/-- The number by which a terminal knows the style: cyan, yellow and bold. -/
def code : Style → Text
  | path => "36".toList
  | warning => "33".toList
  | count => "1".toList

/-- The sequence that switches a terminal to `code`. -/
def switch (code : Text) : Text :=
  ['\x1b', '['] ++ code ++ ['m']

/-- The text in the style, if styles are wanted. -/
def set (style : Style) (colored : Bool) (text : Text) : Text :=
  if colored then switch ['0'] ++ switch style.code ++ text ++ switch ['0'] else text

end Style

namespace Summary

/-- The ending of a noun for `count` things. -/
def pluralEnding (count : Nat) : Text :=
  if count = 1 then [] else ['s']

/-- What has been done to a file, or would be. -/
def verb (summary : Summary) : Text :=
  (if summary.dryRun then "Would update " else "Updated ").toList

/-- The line of a changed file. -/
def fileLine (summary : Summary) (colored : Bool) (file : Change) : Text :=
  summary.verb ++ Style.path.set colored file.path.display ++ [' ', '('] ++
    Text.joinWith [',', ' '] file.moved ++ [')', '\n']

/-- The line of the clashes, if there are any. -/
def clashLine (summary : Summary) (colored : Bool) : Text :=
  let count := summary.clashes.length
  if count = 0 then []
  else
    Style.warning.set colored ("Left ".toList ++ Text.ofNat count ++ " conflicting import".toList ++
      pluralEnding count ++ " in place.\n".toList)

/-- The line of the number of changed files. -/
def countLine (summary : Summary) (colored : Bool) : Text :=
  let count := summary.changed.length
  summary.verb ++ Style.count.set colored (Text.ofNat count) ++ " file".toList ++
    pluralEnding count ++ ['.', '\n']

/-- The text of the summary; `listed` asks for the lines of files and clashes. -/
def text (summary : Summary) (colored listed : Bool) : Text :=
  let list := summary.changed.flatMap (summary.fileLine colored) ++ summary.clashLine colored
  (if listed then list else []) ++ summary.countLine colored

end Summary

end Rehome
