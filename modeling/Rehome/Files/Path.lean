import Rehome.Text.Utf8

/-!
# Paths

A path is a string of bytes. Slashes divide it into steps: to a name, to the parent or nowhere.
-/

namespace Rehome

/-- A path as it is given. -/
abbrev Path := Bytes

/-- One step of a path. -/
inductive Step where
  | stay
  | parent
  | name (name : Bytes)
  deriving DecidableEq

namespace Path

/-- The byte that divides steps. -/
def slash : UInt8 := 0x2F

/-- The byte that divides a file's name from its extension. -/
def dot : UInt8 := 0x2E

/-- The parts of bytes between the separators. -/
def splitOn (separator : UInt8) : Bytes → List Bytes
  | [] => [[]]
  | b :: rest =>
    if b = separator then [] :: splitOn separator rest
    else
      match splitOn separator rest with
      | part :: parts => (b :: part) :: parts
      | [] => [[b]]

/-- The step that a part between slashes stands for; none for an empty part. -/
def stepOf? (part : Bytes) : Option Step :=
  if part = [] then none
  else if part = [dot] then some .stay
  else if part = [dot, dot] then some .parent
  else some (.name part)

/-- The longest name that a directory can hold. -/
def maxName : Nat := 255

/-- A name that something in a directory can have: one that a path can spell between slashes and
that stands for a step to it. -/
def IsName (name : Bytes) : Prop :=
  name ∉ [[], [dot], [dot, dot]] ∧ slash ∉ name ∧ 0 ∉ name ∧ name.length ≤ maxName

instance : DecidablePred IsName :=
  fun _ => inferInstanceAs (Decidable (_ ∧ _))

/-- The steps of a path in order. -/
def steps (path : Path) : List Step :=
  (splitOn slash path).filterMap stepOf?

/-- A path that starts at the root of the machine. -/
def isAbsolute (path : Path) : Bool :=
  path.head? = some slash

/-- A path that ends in a slash and so can only mean a directory. -/
def endsInSlash (path : Path) : Bool :=
  path.getLast? = some slash

/-- The path of something below a directory, by the names on the way there; without names, the path
of the directory itself. -/
def below (path : Path) (names : List Bytes) : Path :=
  let inner := (names.intersperse [slash]).flatten
  if names = [] then path
  else if endsInSlash path then path ++ inner
  else path ++ slash :: inner

/-- The byte that a path for the standard input consists of. -/
def dash : UInt8 := 0x2D

/-- A path that stands for the standard input: a dash, with steps to nowhere or slashes behind
it. -/
def isStandardInput (path : Path) : Bool :=
  !isAbsolute path &&
    match steps path with
    | .name name :: rest => name = [dash] && rest.all (· = .stay)
    | _ => false

/-- The name that a path ends in, if it ends in a name. Steps to nowhere at the end do not count. -/
def fileName? (path : Path) : Option Bytes :=
  match (steps path).reverse.dropWhile (· = .stay) with
  | .name name :: _ => some name
  | _ => none

/-- What follows the last dot of a name. A dot at the very front begins no extension. -/
def extension? (name : Bytes) : Option Bytes :=
  match (splitOn dot name).reverse with
  | [] | [_] | [_, []] => none
  | last :: _ => some last

/-- The extensions of typed source files. -/
def typedExtensions : List Bytes :=
  [[0x74, 0x73], [0x74, 0x73, 0x78]]

/-- A path that names a typed source file. -/
def isTyped (path : Path) : Bool :=
  match (fileName? path).bind extension? with
  | some extension => extension ∈ typedExtensions
  | none => false

/-- The path as a text, with U+FFFD for what is not UTF-8. -/
def display (path : Path) : Text :=
  Utf8.decodeLossy path

/-- The path that a text spells. -/
def ofText (text : Text) : Path :=
  Utf8.encode text

end Path

end Rehome
