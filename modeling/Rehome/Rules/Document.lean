import Rehome.Json.Reading
import Rehome.Rules.Basic

/-!
# Rules as a JSON document

A document names the destination, which may be left out, and the types with their homes in order.
It is an object of the two fields or an array of the two values. A name may stand there twice: what
the rules make of that is not the document's business.
-/

namespace Rehome

/-- What a document says. -/
structure Document where
  destination : Text
  list : List Rule
  deriving DecidableEq

namespace Document

open Json

/-- What the whole document is to be. -/
def wanted : Text := "struct MapFile".toList

/-- What the field of the types is to be. -/
def wantedTypes : Text := "an object mapping type names to module paths".toList

/-- The names of the two fields. -/
def destinationField : Text := "destination".toList

@[inherit_doc destinationField]
def typesField : Text := "types".toList

/-- The rules of an object from behind its opening brace, or from behind one of its members. -/
def readRules (first : Bool) (text : Text) : Read (List Rule) :=
  match _key : readKey first text with
  | .error problem => .error problem
  | .ok (none, rest) => .ok ([], rest)
  | .ok (some typeName, rest) =>
    match _colon : readColon rest with
    | .error problem => .error problem
    | .ok rest =>
      match _value : readStringValue rest with
      | .error problem => .error problem
      | .ok (home, rest) =>
        match readRules false rest with
        | .error problem => .error problem
        | .ok (list, rest) => .ok (⟨typeName, home⟩ :: list, rest)
termination_by text.length
decreasing_by
  exact Nat.lt_trans (readStringValue_length_lt _value)
    (Nat.lt_trans (readColon_length_lt _colon) (readKey_length_lt _key))

/-- The value of the field of the types. -/
def readTypes (text : Text) : Read (List Rule) :=
  match skipBlanks text with
  | [] => .error .truncated
  | c :: rest => if c = '{' then readRules true rest else .error (notWanted wantedTypes c rest)

/-- The fields that were read so far. -/
structure Fields where
  destination : Option Text
  list : Option (List Rule)

/-- The value of the field `key`, added to those before it. An unknown or repeated key is told
before its value is looked at. -/
def readField (fields : Fields) (key text : Text) : Except Problem (Fields × Text) :=
  if key = destinationField then
    match fields.destination with
    | some _ => .error (.unfit (.repeatedField key))
    | none => do
      let (destination, rest) ← readStringValue (← readColon text)
      return ({ fields with destination := some destination }, rest)
  else if key = typesField then
    match fields.list with
    | some _ => .error (.unfit (.repeatedField key))
    | none => do
      let (list, rest) ← readTypes (← readColon text)
      return ({ fields with list := some list }, rest)
  else .error (.unfit (.unknownField key [destinationField, typesField]))

/-- The fields of an object from behind its opening brace, or from behind one of its fields. Each
field may stand there once, so that the third round finds the closing brace or a problem. -/
def readFields (fields : Fields) (first : Bool) (text : Text) : Nat → Read Fields
  | 0 => .error .malformed
  | rounds + 1 =>
    match readKey first text with
    | .error problem => .error problem
    | .ok (none, rest) => .ok (fields, rest)
    | .ok (some key, rest) =>
      match readField fields key rest with
      | .error problem => .error problem
      | .ok (fields, rest) => readFields fields false rest rounds

/-- A document from behind the opening brace of its object. -/
def readObject (text : Text) : Except Problem (Document × Text) := do
  let (fields, rest) ← readFields ⟨none, none⟩ true text 3
  match fields.list with
  | none => throw (.unfit (.missingField typesField))
  | some list => return (⟨fields.destination.getD Rules.defaultDestination, list⟩, rest)

/-- A document from behind the opening bracket of its array. -/
def readArray (text : Text) : Except Problem (Document × Text) := do
  let tooShort := .unfit (.tooShort 1 (wanted ++ " with 2 elements".toList))
  let (more, rest) ← readItem true text
  if !more then throw tooShort
  let (destination, rest) ← readStringValue rest
  let (more, rest) ← readItem false rest
  if !more then throw tooShort
  let (list, rest) ← readTypes rest
  match skipBlanks rest with
  | [] => throw .truncated
  | ']' :: rest => return (⟨destination, list⟩, rest)
  | _ => throw .malformed

/-- The document that a text spells. -/
def ofText (text : Text) : Except Problem Document := do
  let (document, rest) ←
    match skipBlanks text with
    | [] => throw .truncated
    | c :: rest =>
      if c = '{' then readObject rest
      else if c = '[' then readArray rest
      else throw (notWanted wanted c rest)
  readEnd rest
  return document

/-- The rules that the document stands for. -/
def rules (document : Document) : Except RuleError Rules :=
  Rules.ofList document.destination document.list

end Document

end Rehome
