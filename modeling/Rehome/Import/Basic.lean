import Rehome.Text.Blank

/-!
# Imports

What one named import says: some names, taken from a module. A list of names is read by its commas,
and blanks around a name and empty parts do not count. An import is written on one line.
-/

namespace Rehome

/-- Names that are taken from a module. -/
structure Import where
  names : List Text
  module : Text
  deriving DecidableEq

namespace Import

/-- The names of a comma-separated list, in order. -/
def namesIn (list : Text) : List Text :=
  ((list.splitOn ',').map Text.trim).filter fun name => !name.isEmpty

/-- The canonical text of an import: one line, double quotes, a closing semicolon. -/
def render (found : Import) : Text :=
  "import \x7b ".toList ++ Text.joinWith ", ".toList found.names ++ " \x7d from \"".toList ++
    found.module ++ "\";".toList

/-- A name that can stand in a list of names and be read back as itself. -/
def IsName (name : Text) : Prop :=
  name ≠ [] ∧ name.trim = name ∧ ',' ∉ name ∧ '}' ∉ name

/-- A module that can stand between quotes. -/
def IsModule (module : Text) : Prop :=
  module ≠ [] ∧ '\'' ∉ module ∧ '"' ∉ module

end Import

end Rehome
