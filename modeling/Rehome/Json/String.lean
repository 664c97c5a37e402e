import Rehome.Json.Problem

/-!
# JSON strings

Reading a string from behind its opening quote, with every escape that JSON has. A control
character must be escaped, and the two halves of a surrogate pair must both be there. Main
statement: reading takes something from the front (`readString_length_lt`).
-/

namespace Rehome

namespace Json

/-- The value of a hexadecimal digit. -/
def hexDigit? (c : Char) : Option Nat :=
  if '0' ≤ c ∧ c ≤ '9' then some (c.toNat - '0'.toNat)
  else if 'a' ≤ c ∧ c ≤ 'f' then some (c.toNat - 'a'.toNat + 10)
  else if 'A' ≤ c ∧ c ≤ 'F' then some (c.toNat - 'A'.toNat + 10)
  else none

/-- Four hexadecimal digits. The text counts as cut short if it has fewer than four bytes left. -/
def readUnit (text : Text) : Read Nat :=
  match text with
  | a :: b :: c :: d :: rest =>
    match hexDigit? a, hexDigit? b, hexDigit? c, hexDigit? d with
    | some a, some b, some c, some d => .ok (((a * 16 + b) * 16 + c) * 16 + d, rest)
    | _, _, _, _ => .error .malformed
  | few => .error (if Text.byteSize few < 4 then .truncated else .malformed)

/-- The escape of the second half of a surrogate pair. -/
def readTrail (text : Text) : Read Nat :=
  match text with
  | [] => .error .truncated
  | ['\\'] => .error .truncated
  | '\\' :: 'u' :: rest =>
    match readUnit rest with
    | .error problem => .error problem
    | .ok (trail, rest) =>
      if 0xDC00 ≤ trail ∧ trail ≤ 0xDFFF then .ok (trail, rest) else .error .malformed
  | _ => .error .malformed

/-- A character given by its code point, in one escape or in a surrogate pair. -/
def readCodePoint (text : Text) : Read Char :=
  match readUnit text with
  | .error problem => .error problem
  | .ok (unit, rest) =>
    if 0xDC00 ≤ unit ∧ unit ≤ 0xDFFF then .error .malformed
    else if 0xD800 ≤ unit ∧ unit ≤ 0xDBFF then
      match readTrail rest with
      | .error problem => .error problem
      | .ok (trail, rest) =>
        .ok (Char.ofNat (0x10000 + (unit - 0xD800) * 0x400 + (trail - 0xDC00)), rest)
    else .ok (Char.ofNat unit, rest)

/-- The character that one letter after a backslash stands for. -/
def letterEscape? (c : Char) : Option Char :=
  match c with
  | '"' => some '"'
  | '\\' => some '\\'
  | '/' => some '/'
  | 'b' => some '\x08'
  | 'f' => some '\x0c'
  | 'n' => some '\n'
  | 'r' => some '\r'
  | 't' => some '\t'
  | _ => none

/-- A character from behind the backslash of its escape. -/
def readEscape (text : Text) : Read Char :=
  match text with
  | [] => .error .truncated
  | c :: rest =>
    if c = 'u' then readCodePoint rest
    else
      match letterEscape? c with
      | some meant => .ok (meant, rest)
      | none => .error .malformed

theorem readUnit_length_lt {text rest : Text} {n : Nat} (h : readUnit text = .ok (n, rest)) :
    rest.length < text.length := by
  fun_cases readUnit text with
  | case1 a b c d more =>
    simp_all only [readUnit]
    obtain ⟨_, rfl⟩ := Prod.mk.inj (Except.ok.inj h)
    simp only [List.length_cons]
    omega
  | case2 => simp_all [readUnit]
  | case3 => simp_all [readUnit]

theorem readTrail_length_lt {text rest : Text} {n : Nat} (h : readTrail text = .ok (n, rest)) :
    rest.length < text.length := by
  rw [readTrail.eq_def] at h
  split at h
  case h_1 => exact nomatch h
  case h_2 => exact nomatch h
  case h_3 more =>
    split at h
    case h_1 => exact nomatch h
    case h_2 trail after eq =>
      split at h
      case isTrue =>
        obtain ⟨_, rfl⟩ := Prod.mk.inj (Except.ok.inj h)
        have := readUnit_length_lt eq
        simp only [List.length_cons]
        omega
      case isFalse => exact nomatch h
  case h_4 => exact nomatch h

theorem readCodePoint_length_lt {text rest : Text} {c : Char}
    (h : readCodePoint text = .ok (c, rest)) : rest.length < text.length := by
  rw [readCodePoint.eq_def] at h
  split at h
  case h_1 => exact nomatch h
  case h_2 unit after eq =>
    have shorter := readUnit_length_lt eq
    split at h
    case isTrue => exact nomatch h
    case isFalse =>
      split at h
      case isTrue =>
        split at h
        case h_1 => exact nomatch h
        case h_2 trail last eq' =>
          obtain ⟨_, rfl⟩ := Prod.mk.inj (Except.ok.inj h)
          exact Nat.lt_trans (readTrail_length_lt eq') shorter
      case isFalse =>
        obtain ⟨_, rfl⟩ := Prod.mk.inj (Except.ok.inj h)
        exact shorter

theorem readEscape_length_lt {text rest : Text} {c : Char} (h : readEscape text = .ok (c, rest)) :
    rest.length < text.length := by
  rw [readEscape.eq_def] at h
  split at h
  case h_1 => cases h
  case h_2 d more =>
    split at h
    case isTrue => exact Nat.lt_succ_of_lt (readCodePoint_length_lt h)
    case isFalse =>
      split at h
      case h_1 =>
        obtain ⟨_, rfl⟩ := Prod.mk.inj (Except.ok.inj h)
        exact Nat.lt_succ_self _
      case h_2 => cases h

/-- A string from behind its opening quote. -/
def readString (text : Text) : Read Text :=
  match text with
  | [] => .error .truncated
  | c :: rest =>
    if c = '"' then .ok ([], rest)
    else if c = '\\' then
      match _read : readEscape rest with
      | .error problem => .error problem
      | .ok (meant, after) =>
        match readString after with
        | .error problem => .error problem
        | .ok (string, after) => .ok (meant :: string, after)
    else if c.toNat < 0x20 then .error .malformed
    else
      match readString rest with
      | .error problem => .error problem
      | .ok (string, after) => .ok (c :: string, after)
termination_by text.length
decreasing_by
  · exact Nat.lt_succ_of_lt (readEscape_length_lt _read)
  · exact Nat.lt_succ_self _

/-- A string takes at least its closing quote. -/
theorem readString_length_lt {text string rest : Text} (h : readString text = .ok (string, rest)) :
    rest.length < text.length := by
  fun_induction readString text generalizing string rest with
  | case1 => exact nomatch h
  | case2 tail =>
    obtain ⟨_, rfl⟩ := Prod.mk.inj (Except.ok.inj h)
    exact Nat.lt_succ_self _
  | case3 => exact nomatch h
  | case4 => exact nomatch h
  | case5 tail meant after read string' after' eq _ ih =>
    obtain ⟨_, rfl⟩ := Prod.mk.inj (Except.ok.inj h)
    exact Nat.lt_succ_of_lt (Nat.lt_trans (ih eq) (readEscape_length_lt read))
  | case6 => exact nomatch h
  | case7 => exact nomatch h
  | case8 c tail _ _ _ string' after' eq ih =>
    obtain ⟨_, rfl⟩ := Prod.mk.inj (Except.ok.inj h)
    exact Nat.lt_succ_of_lt (ih eq)

end Json

end Rehome
