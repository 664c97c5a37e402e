/-!
# Texts

A text is its list of characters. Positions in a text are counted in bytes of its UTF-8 form, and
a position is a boundary when it falls between two characters. Main statements: cutting at the size
of a first part gives the two parts back (`takeBytes_byteSize_append`, `dropBytes_byteSize_append`),
and a search answers the place where the text splits around what was sought (`find?_eq_some`).
-/

namespace Rehome

/-- A text, character by character. -/
abbrev Text := List Char

/-- Raw bytes, as files and file names hold them. -/
abbrev Bytes := List UInt8

instance : LawfulBEq Text := inferInstance

namespace Text

/-- How many bytes the text takes in UTF-8. -/
def byteSize : Text → Nat
  | [] => 0
  | c :: rest => c.utf8Size + byteSize rest

/-- The longest beginning of the text that takes at most `n` bytes. -/
def takeBytes : Nat → Text → Text
  | _, [] => []
  | n, c :: rest => if c.utf8Size ≤ n then c :: takeBytes (n - c.utf8Size) rest else []

/-- What follows the longest beginning that takes at most `n` bytes. -/
def dropBytes : Nat → Text → Text
  | _, [] => []
  | n, c :: rest => if c.utf8Size ≤ n then dropBytes (n - c.utf8Size) rest else c :: rest

/-- A byte position between two characters, or at either end. -/
def IsBoundary (text : Text) (n : Nat) : Prop :=
  ∃ before after, text = before ++ after ∧ byteSize before = n

/-- The text with the bytes from `start` to `stop` replaced. -/
def splice (text : Text) (start stop : Nat) (new : Text) : Text :=
  takeBytes start text ++ new ++ dropBytes stop text

/-- The rest of a text that begins with `lead`. -/
def after? (lead text : Text) : Option Text :=
  match lead, text with
  | [], rest => some rest
  | _ :: _, [] => none
  | a :: lead, c :: rest => if a = c then after? lead rest else none

/-- The byte position of the first occurrence of `needle`. -/
def find? (needle : Text) : Text → Option Nat
  | [] => if needle = [] then some 0 else none
  | c :: rest =>
    if (after? needle (c :: rest)).isSome then some 0
    else (find? needle rest).map (c.utf8Size + ·)

/-- The parts of a text between its separators; one part more than there are separators. -/
def splitOn (separator : Char) : Text → List Text
  | [] => [[]]
  | c :: rest =>
    if c = separator then [] :: splitOn separator rest
    else
      match splitOn separator rest with
      | part :: parts => (c :: part) :: parts
      | [] => [[c]]

/-- The parts one after another with `separator` between each two. -/
def joinWith (separator : Text) : List Text → Text
  | [] => []
  | [part] => part
  | part :: parts => part ++ separator ++ joinWith separator parts

/-- The text of a natural number in decimal digits. -/
def ofNat (n : Nat) : Text :=
  (Nat.repr n).toList

@[simp] theorem byteSize_nil : byteSize [] = 0 := rfl

@[simp] theorem byteSize_cons (c : Char) (rest : Text) :
    byteSize (c :: rest) = c.utf8Size + byteSize rest := rfl

@[simp] theorem byteSize_append (before after : Text) :
    byteSize (before ++ after) = byteSize before + byteSize after := by
  induction before with
  | nil => simp
  | cons c before ih => simp [ih, Nat.add_assoc]

@[simp] theorem takeBytes_byteSize_append (before after : Text) :
    takeBytes (byteSize before) (before ++ after) = before := by
  induction before with
  | nil =>
    cases after with
    | nil => rfl
    | cons c after => simp [takeBytes, Nat.not_le_of_gt c.utf8Size_pos]
  | cons c before ih => simp [takeBytes, ih]

@[simp] theorem dropBytes_byteSize_append (before after : Text) :
    dropBytes (byteSize before) (before ++ after) = after := by
  induction before with
  | nil =>
    cases after with
    | nil => rfl
    | cons c after => simp [dropBytes, Nat.not_le_of_gt c.utf8Size_pos]
  | cons c before ih => simp [dropBytes, ih]

/-- Cutting a middle part out of a text and setting another in its place. -/
theorem splice_append (before old after new : Text) :
    splice (before ++ old ++ after) (byteSize before) (byteSize before + byteSize old) new =
      before ++ new ++ after := by
  have cut := dropBytes_byteSize_append (before ++ old) after
  rw [byteSize_append] at cut
  rw [splice, cut, List.append_assoc before old after, takeBytes_byteSize_append]

theorem after?_eq_some {lead text rest : Text} :
    after? lead text = some rest ↔ text = lead ++ rest := by
  induction lead generalizing text with
  | nil => simp [after?]
  | cons a lead ih =>
    cases text with
    | nil => simp [after?]
    | cons c text =>
      by_cases same : a = c
      · simp [after?, same, ih]
      · simp [after?, same, Ne.symm same]

/-- A search answers the size of what stands before the first occurrence. -/
theorem find?_eq_some {needle text : Text} {n : Nat} (found : find? needle text = some n) :
    ∃ before after, text = before ++ needle ++ after ∧ byteSize before = n := by
  induction text generalizing n with
  | nil =>
    by_cases empty : needle = []
    · exact ⟨[], [], by simp [empty], by simpa [find?, empty] using found⟩
    · simp [find?, empty] at found
  | cons c rest ih =>
    rw [find?] at found
    split at found
    case isTrue here =>
      obtain ⟨after, eq⟩ := Option.isSome_iff_exists.1 here
      exact ⟨[], after, by simpa using after?_eq_some.1 eq, by simpa using found⟩
    case isFalse =>
      obtain ⟨m, eq, rfl⟩ := Option.map_eq_some_iff.1 found
      obtain ⟨before, after, rfl, rfl⟩ := ih eq
      exact ⟨c :: before, after, by simp, by simp⟩

end Text

end Rehome
