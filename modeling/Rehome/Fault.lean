import Rehome.Files.Access
import Rehome.Rules.Document

/-!
# Faults

What can end a run, and what the user is told about it.
-/

namespace Rehome

/-- The cause that ended a run. -/
inductive Fault where
  /-- A file cannot be read or written. -/
  | access (path : Path) (error : AccessError)
  /-- A source file is not UTF-8. -/
  | notUtf8 (path : Path)
  /-- A directory below a root cannot be listed. -/
  | unlistable (directory : Path) (error : AccessError)
  | document (path : Path) (problem : Json.Problem)
  | rules (error : RuleError)

namespace Fault

/-- What is wrong with a document of rules. -/
def describe : Json.Problem → Text
  | .truncated => "the text ends inside a value".toList
  | .malformed => "the text is not JSON".toList
  | .unfit reason => reason.message

/-- What the user is told. -/
def message : Fault → Text
  | access path error => path.display ++ ": ".toList ++ error.message
  | notUtf8 path => path.display ++ ": file is not valid UTF-8".toList
  | unlistable directory error =>
    "walk failed: ".toList ++ directory.display ++ ": IO error for operation on ".toList ++
      directory.display ++ ": ".toList ++ error.message
  | document path problem =>
    path.display ++ ": invalid relocation map: ".toList ++ describe problem
  | rules error => error.message

end Fault

namespace Rules

/-- The rules that a JSON text spells; `path` is where the text comes from. -/
def ofJson (path : Path) (text : Text) : Except Fault Rules :=
  match Document.ofText text with
  | .error problem => .error (.document path problem)
  | .ok document => document.rules.mapError .rules

/-- The rules in the file that a path leads to. -/
def load (tree : Tree) (path : Path) : Except Fault Rules :=
  match tree.read path with
  | .error error => .error (.access path error)
  | .ok bytes =>
    match Utf8.decode? bytes with
    | none => .error (.access path .notText)
    | some text => ofJson path text

end Rules

namespace Tree

/-- The text of the source file that a path leads to. -/
def readText (tree : Tree) (path : Path) : Except Fault Text :=
  match tree.read path with
  | .error error => .error (.access path error)
  | .ok bytes =>
    match Utf8.decode? bytes with
    | none => .error (.notUtf8 path)
    | some text => .ok text

/-- The tree with a text in the file that a path leads to. -/
def writeText (tree : Tree) (path : Path) (text : Text) : Except Fault Tree :=
  (tree.write path (Utf8.encode text)).mapError (.access path)

end Tree

end Rehome
