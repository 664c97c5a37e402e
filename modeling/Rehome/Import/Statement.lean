import Rehome.Import.Reading

/-!
# Imports in a text

A text falls into pieces: the imports that stand in it, taken from the left and never overlapping,
and the single characters between them. A statement is an import together with the bytes that it
covers. Main statement: the pieces in order are the text (`flatMap_text_pieces`).
-/

namespace Rehome

/-- A part of a text: an import as it is spelt there, or a character that belongs to none. -/
inductive Piece where
  | statement (text : Text) (found : Import)
  | gap (c : Char)
  deriving DecidableEq

/-- What the piece holds of the text. -/
def Piece.text : Piece → Text
  | statement text _ => text
  | gap c => [c]

/-- An import and the byte positions where it starts and stops. -/
structure Statement extends Import where
  start : Nat
  stop : Nat
  deriving DecidableEq

namespace Text

/-- The pieces of a text. -/
def pieces : Text → List Piece
  | [] => []
  | c :: rest =>
    match _read : Import.read? (c :: rest) with
    | some spelt => .statement spelt.text spelt.found :: pieces spelt.rest
    | none => .gap c :: pieces rest
termination_by text => text.length
decreasing_by
  · exact Import.read?_length_lt _read
  · exact Nat.lt_succ_self _

/-- The statements among pieces that begin at byte position `start`. -/
def statementsFrom (start : Nat) : List Piece → List Statement
  | [] => []
  | .gap c :: rest => statementsFrom (start + c.utf8Size) rest
  | .statement text found :: rest =>
    ⟨found, start, start + byteSize text⟩ :: statementsFrom (start + byteSize text) rest

/-- Every import that stands in the text, in order. -/
def statements (text : Text) : List Statement :=
  statementsFrom 0 text.pieces

/-- The first import of `module` in the text. -/
def importOf? (text module : Text) : Option Statement :=
  text.statements.find? fun statement => statement.module = module

/-- What the text has between `start` and `stop`. -/
def slice (text : Text) (start stop : Nat) : Text :=
  takeBytes (stop - start) (dropBytes start text)

theorem pieces_nil : pieces [] = [] := by
  rw [pieces]

/-- At the start of an import the pieces go on after it. -/
theorem pieces_of_read {text : Text} {spelt : Spelt} (here : Import.read? text = some spelt) :
    text.pieces = .statement spelt.text spelt.found :: spelt.rest.pieces := by
  cases text with
  | nil => exact absurd (Import.read?_length_lt here) (Nat.not_lt_zero _)
  | cons c tail =>
    rw [pieces]
    split
    case h_1 other eq =>
      cases here.symm.trans eq
      rfl
    case h_2 eq => exact nomatch here.symm.trans eq

/-- A character at which no import begins is a gap. -/
theorem pieces_of_gap {c : Char} {rest : Text} (none : Import.read? (c :: rest) = none) :
    pieces (c :: rest) = .gap c :: pieces rest := by
  rw [pieces]
  split
  case h_1 eq => exact nomatch none.symm.trans eq
  case h_2 => rfl

/-- The pieces in order are the text. -/
theorem flatMap_text_pieces (text : Text) : text.pieces.flatMap Piece.text = text := by
  cases text with
  | nil => rw [pieces_nil]; rfl
  | cons c rest =>
    cases here : Import.read? (c :: rest) with
    | none =>
      rw [pieces_of_gap here, List.flatMap_cons, flatMap_text_pieces rest]
      rfl
    | some spelt =>
      have := Import.read?_length_lt here
      rw [pieces_of_read here, List.flatMap_cons, flatMap_text_pieces spelt.rest]
      exact (Import.read?_append here).1.symm
termination_by text.length
decreasing_by
  · exact Nat.lt_succ_self _
  · exact this

end Text

end Rehome
