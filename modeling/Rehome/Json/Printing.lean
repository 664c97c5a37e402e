import Rehome.Text.Quoted

/-!
# Printing JSON

JSON values without fractions and nulls, and their text over several lines: two blanks for each
level, a blank after every colon, and empty brackets closed at once.
-/

namespace Rehome

namespace Json

/-- A JSON value as the program writes it. -/
inductive Value where
  | boolean (value : Bool)
  | number (value : Nat)
  | string (value : Text)
  | array (items : List Value)
  | object (members : List (Text × Value))

/-- A character as it stands in a JSON string. -/
def escape (c : Char) : Text :=
  match c with
  | '"' => ['\\', '"']
  | '\\' => ['\\', '\\']
  | '\x08' => ['\\', 'b']
  | '\x0c' => ['\\', 'f']
  | '\n' => ['\\', 'n']
  | '\r' => ['\\', 'r']
  | '\t' => ['\\', 't']
  | c =>
    if c.toNat < 0x20 then
      ['\\', 'u', '0', '0', Nat.digitChar (c.toNat / 16), Nat.digitChar (c.toNat % 16)]
    else [c]

/-- A text as a JSON string. -/
def quote (text : Text) : Text :=
  ['"'] ++ text.flatMap escape ++ ['"']

/-- A line break, and the blanks that a line at `depth` begins with. -/
def newLine (depth : Nat) : Text :=
  '\n' :: List.replicate (2 * depth) ' '

/-- Parts at `depth`, each on a line of its own, between an opening and a closing character. -/
def enclose (first last : Char) (depth : Nat) (parts : List Text) : Text :=
  match parts with
  | [] => [first, last]
  | parts =>
    [first] ++ newLine (depth + 1) ++ Text.joinWith (',' :: newLine (depth + 1)) parts ++
      newLine depth ++ [last]

mutual

/-- The text of a value that begins on a line at `depth`. -/
def Value.print (depth : Nat) : Value → Text
  | .boolean value => (if value then "true" else "false").toList
  | .number value => Text.ofNat value
  | .string value => quote value
  | .array items => enclose '[' ']' depth (printItems (depth + 1) items)
  | .object members => enclose '{' '}' depth (printMembers (depth + 1) members)

/-- The texts of the items of an array. -/
def printItems (depth : Nat) : List Value → List Text
  | [] => []
  | item :: rest => item.print depth :: printItems depth rest

/-- The texts of the members of an object. -/
def printMembers (depth : Nat) : List (Text × Value) → List Text
  | [] => []
  | (key, value) :: rest =>
    (quote key ++ [':', ' '] ++ value.print depth) :: printMembers depth rest

end

end Json

end Rehome
