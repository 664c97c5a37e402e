import Rehome.Decimal
import Rehome.Text.Quoted

/-!
# What can be wrong with a JSON document

A document is read once from its start, and the first problem ends the reading: the text is cut
short, it is no JSON, or it is JSON that does not fit what is wanted.
-/

namespace Rehome

namespace Json

/-- What a value turned out to be. -/
inductive Kind where
  | null
  | boolean (value : Bool)
  | integer (value : Int)
  | decimal (value : Float)
  | string (value : Text)
  | array
  | object

/-- Why a value does not fit. -/
inductive Unfit where
  | wrongKind (found : Kind) (wanted : Text)
  | missingField (name : Text)
  | repeatedField (name : Text)
  | unknownField (name : Text) (known : List Text)
  | tooShort (size : Nat) (wanted : Text)

/-- The first problem of a document. -/
inductive Problem where
  /-- The text ends inside a value. -/
  | truncated
  | malformed
  | unfit (reason : Unfit)

/-- What a reader takes from the front of a text, and the rest. -/
abbrev Read (α : Type) := Except Problem (α × Text)

/-- A value as a message names it. -/
def Kind.describe : Kind → Text
  | null => "null".toList
  | boolean value => "boolean `".toList ++ (if value then "true" else "false").toList ++ ['\x60']
  | integer value => "integer `".toList ++ value.repr.toList ++ ['\x60']
  | decimal value => "floating point `".toList ++ Decimal.render value ++ ['\x60']
  | string value => "string ".toList ++ Quoted.text value
  | array => "sequence".toList
  | object => "map".toList

namespace Unfit

/-- A name between backquotes. -/
def ticked (name : Text) : Text :=
  ['\x60'] ++ name ++ ['\x60']

/-- What the user is told. -/
def message : Unfit → Text
  | wrongKind found wanted =>
    "invalid type: ".toList ++ found.describe ++ ", expected ".toList ++ wanted
  | missingField name => "missing field ".toList ++ ticked name
  | repeatedField name => "duplicate field ".toList ++ ticked name
  | unknownField name known =>
    "unknown field ".toList ++ ticked name ++ ", expected ".toList ++
      Text.joinWith " or ".toList (known.map ticked)
  | tooShort size wanted =>
    "invalid length ".toList ++ Text.ofNat size ++ ", expected ".toList ++ wanted

end Unfit

end Json

end Rehome
