import Rehome.Json.String
import Rehome.Proofs.Text.Utf8

/-!
# How JSON spells strings

A character has several spellings: itself, one letter behind a backslash, its code point in four
digits, or in two halves of four. The grammar is given apart from the readers. Main statement: the
reader of strings takes exactly what the grammar allows (`Json.readString_eq_ok_iff`).
-/

namespace Rehome

namespace Json

/-- A hexadecimal digit, in either case. -/
def SpellsDigit (n : Nat) (c : Char) : Prop :=
  "0123456789abcdef".toList[n]? = some c ∨ "0123456789ABCDEF".toList[n]? = some c

instance (n : Nat) (c : Char) : Decidable (SpellsDigit n c) :=
  inferInstanceAs (Decidable (_ ∨ _))

/-- Four hexadecimal digits. -/
inductive SpellsUnit : Nat → Text → Prop
  | intro {i j k l : Nat} {a b c d : Char} (first : SpellsDigit i a) (second : SpellsDigit j b)
      (third : SpellsDigit k c) (fourth : SpellsDigit l d) :
    SpellsUnit (i * 0x1000 + j * 0x100 + k * 0x10 + l) [a, b, c, d]

/-- The letters that may stand behind a backslash, and what they mean there. -/
def shortEscapes : List (Char × Char) :=
  [('"', '"'), ('\\', '\\'), ('/', '/'), ('b', '\x08'), ('f', '\x0c'), ('n', '\n'), ('r', '\r'),
    ('t', '\t')]

/-- The spellings of a character in a string. -/
inductive SpellsChar : Char → Text → Prop
  | plain {c : Char} (unquoted : c ≠ '"') (unescaped : c ≠ '\\') (visible : 0x20 ≤ c.toNat) :
    SpellsChar c [c]
  | short {letter c : Char} (listed : (letter, c) ∈ shortEscapes) : SpellsChar c ['\\', letter]
  | unit {c : Char} {digits : Text} (spelled : SpellsUnit c.toNat digits) :
    SpellsChar c ('\\' :: 'u' :: digits)
  | pair {c : Char} {high low : Nat} {digits more : Text} (small : high < 0x400)
      (small' : low < 0x400) (value : c.toNat = 0x10000 + high * 0x400 + low)
      (lead : SpellsUnit (0xD800 + high) digits) (trail : SpellsUnit (0xDC00 + low) more) :
    SpellsChar c ('\\' :: 'u' :: (digits ++ '\\' :: 'u' :: more))

/-- The spellings of a string without its quotes. -/
inductive SpellsChars : Text → Text → Prop
  | nil : SpellsChars [] []
  | cons {c : Char} {string front back : Text} (first : SpellsChar c front)
      (rest : SpellsChars string back) : SpellsChars (c :: string) (front ++ back)

/-- The spellings of a string. -/
inductive SpellsString (string : Text) : Text → Prop
  | intro {inner : Text} (chars : SpellsChars string inner) :
    SpellsString string ('"' :: inner ++ ['"'])

variable {n : Nat} {c : Char} {text rest string inner front : Text}

/-! ### Digits -/

lemma SpellsDigit.lt (h : SpellsDigit n c) : n < 16 := by
  rcases h with lower | upper
  · exact (List.getElem?_eq_some_iff.1 lower).1
  · exact (List.getElem?_eq_some_iff.1 upper).1

lemma hexDigit?_eq_some_iff : hexDigit? c = some n ↔ SpellsDigit n c := by
  constructor
  · intro h
    have small : c.toNat < 128 := by
      have last : c ≤ 'f' := by
        rw [hexDigit?] at h
        split at h
        case isTrue range => exact Char.le_trans range.2 (by decide)
        split at h
        case isTrue range => exact range.2
        split at h
        case isTrue range => exact Char.le_trans range.2 (by decide)
        cases h
      exact Nat.lt_of_le_of_lt (Char.le_def.1 last) (by decide)
    have table : ∀ k < 128, ∀ n ∈ hexDigit? (Char.ofNat k), SpellsDigit n (Char.ofNat k) := by
      decide +kernel
    have spelled := table c.toNat small n
    rw [Char.ofNat_toNat] at spelled
    exact spelled h
  · intro h
    have lower : ∀ n < 16, "0123456789abcdef".toList[n]?.bind hexDigit? = some n := by decide
    have upper : ∀ n < 16, "0123456789ABCDEF".toList[n]?.bind hexDigit? = some n := by decide
    have bound := h.lt
    rcases h with small | big
    · rw [← lower n bound, small, Option.bind_some]
    · rw [← upper n bound, big, Option.bind_some]

lemma SpellsUnit.lt (h : SpellsUnit n text) : n < 0x10000 := by
  cases h with
  | intro first second third fourth =>
    have := first.lt
    have := second.lt
    have := third.lt
    have := fourth.lt
    omega

lemma readUnit_eq_ok_iff :
    readUnit text = .ok (n, rest) ↔ ∃ digits, SpellsUnit n digits ∧ text = digits ++ rest := by
  constructor
  · intro h
    rw [readUnit.eq_def] at h
    split at h
    case h_2 => cases h
    case h_1 a b c d more =>
      split at h
      case h_2 => cases h
      case h_1 i j k l first second third fourth =>
        rw [hexDigit?_eq_some_iff] at first second third fourth
        cases h
        refine ⟨[a, b, c, d], ?_, rfl⟩
        have value : ((i * 16 + j) * 16 + k) * 16 + l = i * 0x1000 + j * 0x100 + k * 0x10 + l := by
          omega
        rw [value]
        exact .intro first second third fourth
  · rintro ⟨_, @⟨i, j, k, l, a, b, c, d, first, second, third, fourth⟩, rfl⟩
    simp only [readUnit, List.cons_append, List.nil_append, hexDigit?_eq_some_iff.2 first,
      hexDigit?_eq_some_iff.2 second, hexDigit?_eq_some_iff.2 third, hexDigit?_eq_some_iff.2 fourth,
      Except.ok.injEq, Prod.mk.injEq, and_true]
    omega

/-! ### Escapes -/

lemma letterEscape?_eq_some_iff {letter : Char} :
    letterEscape? letter = some c ↔ (letter, c) ∈ shortEscapes := by
  constructor
  · intro h
    rw [letterEscape?.eq_def] at h
    split at h <;> cases h <;> decide
  · have table : ∀ pair ∈ shortEscapes, letterEscape? pair.1 = some pair.2 := by decide
    exact fun listed => table (letter, c) listed

lemma readTrail_eq_ok_iff :
    readTrail text = .ok (n, rest) ↔ ∃ digits, SpellsUnit n digits ∧ 0xDC00 ≤ n ∧ n ≤ 0xDFFF ∧
      text = '\\' :: 'u' :: (digits ++ rest) := by
  constructor
  · intro h
    rw [readTrail.eq_def] at h
    split at h
    case h_1 => cases h
    case h_2 => cases h
    case h_4 => cases h
    case h_3 more =>
      split at h
      case h_1 => cases h
      case h_2 trail after read =>
        obtain ⟨digits, spelled, rfl⟩ := readUnit_eq_ok_iff.1 read
        split at h
        case isFalse => cases h
        case isTrue range =>
          cases h
          exact ⟨digits, spelled, range.1, range.2, rfl⟩
  · rintro ⟨digits, spelled, least, most, rfl⟩
    have read : readUnit (digits ++ rest) = .ok (n, rest) :=
      readUnit_eq_ok_iff.2 ⟨digits, spelled, rfl⟩
    simp only [readTrail, read, if_pos (And.intro least most)]

lemma readCodePoint_eq_ok_iff :
    readCodePoint text = .ok (c, rest) ↔
      ∃ inner, SpellsChar c ('\\' :: 'u' :: inner) ∧ text = inner ++ rest := by
  constructor
  · intro h
    rw [readCodePoint] at h
    split at h
    case h_1 => cases h
    case h_2 unit after read =>
      obtain ⟨digits, spelled, rfl⟩ := readUnit_eq_ok_iff.1 read
      have bound := spelled.lt
      split at h
      case isTrue => cases h
      case isFalse leading =>
        split at h
        case isTrue lead =>
          split at h
          case h_1 => cases h
          case h_2 trail last read' =>
            obtain ⟨more, spelled', least, most, rfl⟩ := readTrail_eq_ok_iff.1 read'
            obtain ⟨rfl, rfl⟩ := Prod.mk.inj (Except.ok.inj h)
            refine ⟨digits ++ '\\' :: 'u' :: more, ?_, by simp⟩
            obtain ⟨high, rfl⟩ := Nat.exists_eq_add_of_le lead.1
            obtain ⟨low, rfl⟩ := Nat.exists_eq_add_of_le least
            rw [Nat.add_sub_cancel_left, Nat.add_sub_cancel_left]
            have valid : (0x10000 + high * 0x400 + low).isValidChar := by
              rw [Nat.isValidChar]
              omega
            exact .pair (by omega) (by omega) (Utf8.toNat_ofNat valid) spelled spelled'
        case isFalse single =>
          cases h
          have valid : unit.isValidChar := by
            rw [Nat.isValidChar]
            omega
          refine ⟨digits, .unit ?_, rfl⟩
          rwa [Utf8.toNat_ofNat valid]
  · rintro ⟨inner, spelled, rfl⟩
    cases spelled with
    | short listed =>
      rw [← letterEscape?_eq_some_iff] at listed
      cases listed
    | unit digits =>
      have valid := Utf8.toNat_valid c
      rw [readCodePoint, readUnit_eq_ok_iff.2 ⟨_, digits, rfl⟩]
      dsimp only
      rw [if_neg (by omega), if_neg (by omega), Char.ofNat_toNat]
    | @pair _ high low digits more small small' value lead trail =>
      rw [readCodePoint, List.append_assoc, readUnit_eq_ok_iff.2 ⟨_, lead, rfl⟩]
      dsimp only
      rw [if_neg (by omega), if_pos (by omega), List.cons_append, List.cons_append,
        readTrail_eq_ok_iff.2 ⟨_, trail, by omega, by omega, rfl⟩]
      dsimp only
      rw [Nat.add_sub_cancel_left, Nat.add_sub_cancel_left, ← value, Char.ofNat_toNat]

/-- The reader of escapes takes those that the grammar has. -/
lemma readEscape_eq_ok_iff :
    readEscape text = .ok (c, rest) ↔
      ∃ inner, SpellsChar c ('\\' :: inner) ∧ text = inner ++ rest := by
  constructor
  · intro h
    rw [readEscape.eq_def] at h
    split at h
    case h_1 => cases h
    case h_2 letter more =>
      split at h
      case isTrue point =>
        obtain ⟨inner, spelled, rfl⟩ := readCodePoint_eq_ok_iff.1 h
        exact ⟨'u' :: inner, spelled, by rw [point, List.cons_append]⟩
      case isFalse =>
        split at h
        case h_2 => cases h
        case h_1 meant found =>
          cases h
          exact ⟨[letter], .short (letterEscape?_eq_some_iff.1 found), rfl⟩
  · rintro ⟨inner, spelled, rfl⟩
    cases spelled with
    | plain _ unescaped => exact absurd rfl unescaped
    | @short letter _ listed =>
      have other : letter ≠ 'u' := by
        rintro rfl
        rw [← letterEscape?_eq_some_iff] at listed
        cases listed
      rw [List.singleton_append, readEscape, if_neg other, letterEscape?_eq_some_iff.2 listed]
    | unit digits =>
      rw [List.cons_append, readEscape, if_pos rfl]
      exact readCodePoint_eq_ok_iff.2 ⟨_, .unit digits, rfl⟩
    | pair small small' value lead trail =>
      rw [List.cons_append, readEscape, if_pos rfl]
      exact readCodePoint_eq_ok_iff.2 ⟨_, .pair small small' value lead trail, rfl⟩

/-! ### Strings -/

/-- The reader of strings goes on behind any spelling of a character. -/
lemma readString_append (first : SpellsChar c front)
    (read : readString text = .ok (string, rest)) :
    readString (front ++ text) = .ok (c :: string, rest) := by
  have escaped : ∀ inner, front = '\\' :: inner →
      readString (front ++ text) = .ok (c :: string, rest) := by
    rintro inner rfl
    rw [List.cons_append, readString, if_neg (by decide), if_pos rfl]
    split
    case h_1 problem failed =>
      rw [readEscape_eq_ok_iff.2 ⟨inner, first, rfl⟩] at failed
      cases failed
    case h_2 meant after found =>
      rw [readEscape_eq_ok_iff.2 ⟨inner, first, rfl⟩] at found
      cases found
      rw [read]
  cases first with
  | plain unquoted unescaped visible =>
    rw [List.singleton_append, readString, if_neg unquoted, if_neg unescaped,
      if_neg (Nat.not_lt.2 visible), read]
  | short => exact escaped _ rfl
  | unit => exact escaped _ rfl
  | pair => exact escaped _ rfl

/-- The reader of strings takes exactly what the grammar allows, up to the closing quote. -/
theorem readString_eq_ok_iff :
    readString text = .ok (string, rest) ↔
      ∃ inner, SpellsChars string inner ∧ text = inner ++ '"' :: rest := by
  constructor
  · intro h
    fun_induction readString text generalizing string rest with
    | case1 => cases h
    | case2 tail =>
      cases h
      exact ⟨[], .nil, rfl⟩
    | case3 => cases h
    | case4 => cases h
    | case5 tail meant after read string' after' eq _ ih =>
      cases h
      obtain ⟨front, first, rfl⟩ := readEscape_eq_ok_iff.1 read
      obtain ⟨inner, chars, rfl⟩ := ih eq
      exact ⟨_, .cons first chars, by simp⟩
    | case6 => cases h
    | case7 => cases h
    | case8 c tail unquoted unescaped visible string' after' eq ih =>
      cases h
      obtain ⟨inner, chars, rfl⟩ := ih eq
      exact ⟨_, .cons (.plain unquoted unescaped (Nat.not_lt.1 visible)) chars, rfl⟩
  · rintro ⟨inner, chars, rfl⟩
    induction chars with
    | nil => rw [List.nil_append, readString, if_pos rfl]
    | @cons c string front back first _ ih =>
      rw [List.append_assoc]
      exact readString_append first ih

/-! ### Every string can be spelled -/

lemma SpellsChars.append {more back : Text} (h : SpellsChars string front)
    (h' : SpellsChars more back) : SpellsChars (string ++ more) (front ++ back) := by
  induction h with
  | nil => exact h'
  | cons first _ ih =>
    rw [List.append_assoc]
    exact .cons first ih

/-- Characters that need no escape spell themselves. -/
lemma spellsChars_self
    (plain : (string.all fun c => c ≠ '"' ∧ c ≠ '\\' ∧ 0x20 ≤ c.toNat) = true) :
    SpellsChars string string := by
  induction string with
  | nil => exact .nil
  | cons c string ih =>
    rw [List.all_cons, Bool.and_eq_true, decide_eq_true_eq] at plain
    obtain ⟨⟨unquoted, unescaped, visible⟩, rest⟩ := plain
    exact .cons (.plain unquoted unescaped visible) (ih rest)

lemma exists_spellsUnit (small : n < 0x10000) : ∃ digits, SpellsUnit n digits := by
  have digit : ∀ n < 16, ∃ c, SpellsDigit n c := by
    intro n bound
    exact ⟨_, .inl (List.getElem?_eq_getElem (l := "0123456789abcdef".toList) bound)⟩
  obtain ⟨a, first⟩ := digit (n / 0x1000) (by omega)
  obtain ⟨b, second⟩ := digit (n / 0x100 % 0x10) (by omega)
  obtain ⟨c, third⟩ := digit (n / 0x10 % 0x10) (by omega)
  obtain ⟨d, fourth⟩ := digit (n % 0x10) (by omega)
  have value : n / 0x1000 * 0x1000 + n / 0x100 % 0x10 * 0x100 + n / 0x10 % 0x10 * 0x10 + n % 0x10 =
      n := by
    omega
  have spelled := SpellsUnit.intro first second third fourth
  rw [value] at spelled
  exact ⟨_, spelled⟩

/-- A character has a spelling by its code point, in one unit or in two. -/
lemma exists_spellsChar (c : Char) : ∃ text, SpellsChar c text := by
  by_cases small : c.toNat < 0x10000
  · obtain ⟨digits, spelled⟩ := exists_spellsUnit small
    exact ⟨_, .unit spelled⟩
  · have valid := Utf8.toNat_valid c
    have high : (c.toNat - 0x10000) / 0x400 < 0x400 := by omega
    have low : (c.toNat - 0x10000) % 0x400 < 0x400 := by omega
    have value : c.toNat =
        0x10000 + (c.toNat - 0x10000) / 0x400 * 0x400 + (c.toNat - 0x10000) % 0x400 := by
      omega
    obtain ⟨digits, lead⟩ := @exists_spellsUnit (0xD800 + (c.toNat - 0x10000) / 0x400) (by omega)
    obtain ⟨more, trail⟩ := @exists_spellsUnit (0xDC00 + (c.toNat - 0x10000) % 0x400) (by omega)
    exact ⟨_, .pair high low value lead trail⟩

lemma exists_spellsString (string : Text) : ∃ text, SpellsString string text := by
  have chars : ∃ inner, SpellsChars string inner := by
    induction string with
    | nil => exact ⟨[], .nil⟩
    | cons c string ih =>
      obtain ⟨back, rest⟩ := ih
      obtain ⟨front, first⟩ := exists_spellsChar c
      exact ⟨front ++ back, .cons first rest⟩
  obtain ⟨inner, chars⟩ := chars
  exact ⟨_, .intro chars⟩

end Json

end Rehome
