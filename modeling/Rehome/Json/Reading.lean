import Rehome.Json.Number
import Rehome.Json.String

/-!
# Reading JSON piece by piece

The readers that a typed document is put together from. Each takes what it wants from the front of
the text or tells the first problem there; none looks further than it has to.
-/

namespace Rehome

namespace Json

/-- The text without its leading JSON whitespace. -/
def skipBlanks (text : Text) : Text :=
  text.dropWhile fun c => c = ' ' || c = '\t' || c = '\n' || c = '\r'

/-- The rest of a text that begins with `word`; the text may also end inside the word. -/
def readWord (word text : Text) : Except Problem Text :=
  match word, text with
  | [], rest => .ok rest
  | _ :: _, [] => .error .truncated
  | a :: word, c :: rest => if a = c then readWord word rest else .error .malformed

/-- The value that begins with the character `c`, as far as it takes to name it. -/
def readKind (c : Char) (rest : Text) : Except Problem Kind :=
  match c with
  | 'n' => (readWord "ull".toList rest).map fun _ => .null
  | 't' => (readWord "rue".toList rest).map fun _ => .boolean true
  | 'f' => (readWord "alse".toList rest).map fun _ => .boolean false
  | '"' => (readString rest).map fun (string, _) => .string string
  | '[' => .ok .array
  | '{' => .ok .object
  | c =>
    if c = '-' ∨ c.isDigit then
      match readNumeral (c :: rest) with
      | .error problem => .error problem
      | .ok (numeral, _) => numeral.kind
    else .error .malformed

/-- The problem of a value that begins with `c` where `wanted` should stand. -/
def notWanted (wanted : Text) (c : Char) (rest : Text) : Problem :=
  match readKind c rest with
  | .error problem => problem
  | .ok found => .unfit (.wrongKind found wanted)

/-- The rest after a colon. -/
def readColon (text : Text) : Except Problem Text :=
  match skipBlanks text with
  | [] => .error .truncated
  | ':' :: rest => .ok rest
  | _ => .error .malformed

/-- A string value. -/
def readStringValue (text : Text) : Read Text :=
  match skipBlanks text with
  | [] => .error .truncated
  | c :: rest => if c = '"' then readString rest else .error (notWanted "a string".toList c rest)

/-- The next key of an object, none at its closing brace. A comma stands before every key but the
first. -/
def readKey (first : Bool) (text : Text) : Read (Option Text) :=
  match skipBlanks text with
  | [] => .error .truncated
  | c :: rest =>
    if c = '}' then .ok (none, rest)
    else if first then quoted c rest
    else if c = ',' then
      match skipBlanks rest with
      | [] => .error .truncated
      | d :: rest => quoted d rest
    else .error .malformed
where
  /-- A key that begins with the character `c`. -/
  quoted (c : Char) (rest : Text) : Read (Option Text) :=
    if c = '"' then (readString rest).map fun (key, rest) => (some key, rest)
    else .error .malformed

/-- Whether an array goes on, and the rest from its next value on. -/
def readItem (first : Bool) (text : Text) : Read Bool :=
  match skipBlanks text with
  | [] => .error .truncated
  | c :: rest =>
    if c = ']' then .ok (false, rest)
    else if first then .ok (true, c :: rest)
    else if c = ',' then
      match skipBlanks rest with
      | [] => .error .truncated
      | ']' :: _ => .error .malformed
      | rest => .ok (true, rest)
    else .error .malformed

/-- Nothing but whitespace is left. -/
def readEnd (text : Text) : Except Problem Unit :=
  match skipBlanks text with
  | [] => .ok ()
  | _ => .error .malformed

theorem skipBlanks_length_le (text : Text) : (skipBlanks text).length ≤ text.length := by
  have := congrArg List.length (List.takeWhile_append_dropWhile
    (p := fun c => c = ' ' || c = '\t' || c = '\n' || c = '\r') (l := text))
  rw [List.length_append] at this
  exact Nat.le_of_add_left_le (Nat.le_of_eq this)

theorem readColon_length_lt {text rest : Text} (h : readColon text = .ok rest) :
    rest.length < text.length := by
  have shorter := skipBlanks_length_le text
  rw [readColon] at h
  split at h
  case h_1 => exact nomatch h
  case h_2 after eq =>
    cases h
    rw [eq] at shorter
    exact shorter
  case h_3 => exact nomatch h

theorem readStringValue_length_lt {text string rest : Text}
    (h : readStringValue text = .ok (string, rest)) : rest.length < text.length := by
  have shorter := skipBlanks_length_le text
  rw [readStringValue] at h
  split at h
  case h_1 => cases h
  case h_2 c after eq =>
    rw [eq] at shorter
    split at h
    case isTrue => exact Nat.lt_trans (readString_length_lt h) shorter
    case isFalse => cases h

theorem readKey_quoted_length_le {c : Char} {text rest : Text} {key : Option Text}
    (h : readKey.quoted c text = .ok (key, rest)) : rest.length ≤ text.length := by
  rw [readKey.quoted] at h
  split at h
  case isTrue =>
    cases read : readString text with
    | error => exact nomatch read ▸ h
    | ok found =>
      rw [read] at h
      cases h
      exact Nat.le_of_lt (readString_length_lt read)
  case isFalse => exact nomatch h

/-- Every key takes something, and so does the closing brace. -/
theorem readKey_length_lt {first : Bool} {text rest : Text} {key : Option Text}
    (h : readKey first text = .ok (key, rest)) : rest.length < text.length := by
  have shorter := skipBlanks_length_le text
  rw [readKey] at h
  split at h
  case h_1 => cases h
  case h_2 c after eq =>
    rw [eq] at shorter
    split at h
    case isTrue => cases h; exact shorter
    case isFalse =>
      split at h
      case isTrue => exact Nat.lt_of_le_of_lt (readKey_quoted_length_le h) shorter
      case isFalse =>
        split at h
        case isTrue =>
          have again := skipBlanks_length_le after
          split at h
          case h_1 => cases h
          case h_2 d last eq' =>
            rw [eq'] at again
            exact Nat.lt_trans (Nat.lt_of_le_of_lt (readKey_quoted_length_le h) again) shorter
        case isFalse => cases h

end Json

end Rehome
