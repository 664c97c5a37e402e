import Mathlib.Data.List.DropRight
import Mathlib.Data.List.TakeWhile
import Rehome.Json.Reading
import Rehome.Proofs.Json.Spelling

/-!
# Tokens of a JSON text

A document is a sequence of structural characters and strings, with whitespace where it is allowed.
For each reader there is a statement of the tokens that it takes. Main statements: `Json.Written`,
and what it comes to for one token (`Json.written_mark_iff`, `Json.written_string_iff`).
-/

namespace Rehome

namespace Json

/-- A structural character or a string. -/
inductive Token where
  | mark (c : Char)
  | string (value : Text)

/-- The structural characters. -/
def marks : List Char :=
  ['{', '}', '[', ']', ':', ',']

/-- The spellings of a token. -/
inductive Token.Spells : Token → Text → Prop
  | mark {c : Char} (listed : c ∈ marks) : Spells (.mark c) [c]
  | string {value text : Text} (spelled : SpellsString value text) : Spells (.string value) text

/-- What may stand between tokens. -/
def Spacing (text : Text) : Prop :=
  ∀ c ∈ text, c = ' ' ∨ c = '\t' ∨ c = '\n' ∨ c = '\r'

/-- The text consists of the tokens in order, with any whitespace before, between and behind
them. -/
inductive Written : List Token → Text → Prop
  | nil {gap : Text} (spacing : Spacing gap) : Written [] gap
  | cons {token : Token} {tokens : List Token} {gap front back : Text} (spacing : Spacing gap)
      (first : token.Spells front) (rest : Written tokens back) :
    Written (token :: tokens) (gap ++ (front ++ back))

variable {token : Token} {tokens : List Token} {c : Char} {first : Bool}
  {text rest gap front back string key : Text}

/-! ### Whitespace -/

lemma exists_spacing (text : Text) : ∃ gap, Spacing gap ∧ text = gap ++ skipBlanks text := by
  refine ⟨_, fun c mem => ?_, List.takeWhile_append_dropWhile.symm⟩
  have blank := List.mem_takeWhile_imp mem
  simpa only [Bool.or_eq_true, decide_eq_true_eq, or_assoc] using blank

lemma skipBlanks_append (spacing : Spacing gap) (text : Text) :
    skipBlanks (gap ++ text) = skipBlanks text := by
  apply List.dropWhile_append_of_pos
  intro c mem
  simpa only [Bool.or_eq_true, decide_eq_true_eq, or_assoc] using spacing c mem

lemma skipBlanks_cons (solid : ¬ Spacing [c]) (text : Text) :
    skipBlanks (c :: text) = c :: text := by
  apply List.dropWhile_cons_of_neg
  simpa only [Spacing, List.forall_mem_singleton, Bool.or_eq_true, decide_eq_true_eq, or_assoc]
    using solid

/-- A token begins with a character of its own, and only one of them with a closing bracket. -/
lemma Token.Spells.exists_cons (h : token.Spells front) :
    ∃ c more, front = c :: more ∧ ¬ Spacing [c] ∧ (c = ']' → token = .mark ']') := by
  cases h with
  | @mark c listed =>
    refine ⟨c, [], rfl, ?_, congrArg Token.mark⟩
    rw [Spacing, List.forall_mem_singleton]
    rintro (rfl | rfl | rfl | rfl) <;> exact absurd listed (by decide)
  | string spelled =>
    cases spelled with
    | intro chars =>
      refine ⟨'"', _, rfl, ?_, fun same => absurd same (by decide)⟩
      simp only [Spacing, List.forall_mem_singleton]
      decide

lemma written_nil_iff : Written [] text ↔ skipBlanks text = [] := by
  constructor
  · intro h
    cases h with
    | nil spacing =>
      rw [← List.append_nil text, skipBlanks_append spacing]
      rfl
  · intro h
    obtain ⟨gap, spacing, same⟩ := exists_spacing text
    rw [h, List.append_nil] at same
    exact same ▸ .nil spacing

lemma written_cons_iff :
    Written (token :: tokens) text ↔
      ∃ front back, skipBlanks text = front ++ back ∧ token.Spells front ∧ Written tokens back := by
  constructor
  · rintro ⟨⟩
    case cons gap front back spacing first rest =>
      refine ⟨front, back, ?_, first, rest⟩
      obtain ⟨c, more, rfl, solid, -⟩ := first.exists_cons
      rw [skipBlanks_append spacing, List.cons_append, skipBlanks_cons solid]
  · rintro ⟨front, back, same, spelled, rest⟩
    obtain ⟨gap, spacing, parts⟩ := exists_spacing text
    rw [parts, same]
    exact .cons spacing spelled rest

/-! ### Single tokens -/

/-- A structural character is what comes next behind the whitespace. -/
lemma written_mark_iff (listed : c ∈ marks) :
    Written (.mark c :: tokens) text ↔
      ∃ rest, skipBlanks text = c :: rest ∧ Written tokens rest := by
  rw [written_cons_iff]
  constructor
  · rintro ⟨_, back, same, ⟨⟩, rest⟩
    exact ⟨back, same, rest⟩
  · rintro ⟨rest, same, written⟩
    exact ⟨[c], rest, same, .mark listed, written⟩

lemma readStringValue_eq_ok_iff :
    readStringValue text = .ok (string, rest) ↔
      ∃ more, skipBlanks text = '"' :: more ∧ readString more = .ok (string, rest) := by
  rw [readStringValue]
  cases skipBlanks text with
  | nil => simp
  | cons c more =>
    by_cases quote : c = '"'
    · simp [quote]
    · simp [quote]

/-- A string is what the reader of string values takes. -/
lemma written_string_iff :
    Written (.string string :: tokens) text ↔
      ∃ rest, readStringValue text = .ok (string, rest) ∧ Written tokens rest := by
  simp only [written_cons_iff, readStringValue_eq_ok_iff, readString_eq_ok_iff]
  constructor
  · rintro ⟨front, back, same, spelled, written⟩
    cases spelled with
    | string spelled =>
      obtain ⟨chars⟩ := spelled
      rw [List.append_assoc, List.singleton_append] at same
      exact ⟨back, ⟨_, same, _, chars, rfl⟩, written⟩
  · rintro ⟨rest, ⟨_, same, inner, chars, rfl⟩, written⟩
    refine ⟨_, rest, ?_, .string (.intro chars), written⟩
    rw [same, List.cons_append, List.cons_append, List.append_assoc, List.singleton_append]

lemma written_colon_iff :
    Written (.mark ':' :: tokens) text ↔
      ∃ rest, readColon text = .ok rest ∧ Written tokens rest := by
  rw [written_mark_iff (by decide)]
  apply exists_congr
  intro rest
  apply and_congr_left'
  rw [readColon]
  split
  case h_1 empty => simp [empty]
  case h_2 after colon => simp [colon]
  case h_3 other =>
    constructor
    · exact fun colon => absurd colon (other rest)
    · rintro ⟨⟩

lemma written_end_iff : Written [] text ↔ readEnd text = .ok () := by
  rw [written_nil_iff, readEnd]
  split
  case h_1 empty => simp [empty]
  case h_2 other =>
    constructor
    · exact fun empty => absurd empty other
    · rintro ⟨⟩

/-! ### Members and elements -/

/-- What stands before a member or an element: a comma, unless it is the first. -/
def lead (first : Bool) : List Token :=
  if first then [] else [.mark ',']

lemma readKey_quoted_eq_ok_iff :
    readKey.quoted c text = .ok (some key, rest) ↔ c = '"' ∧ readString text = .ok (key, rest) := by
  rw [readKey.quoted]
  by_cases quote : c = '"'
  · cases readString text with
    | error => simp [quote, Except.map]
    | ok found => simp [quote, Except.map, Prod.ext_iff]
  · simp [quote]

/-- What the reader of keys takes where a key or a closing brace comes next. -/
lemma readKey_true_eq_ok_iff :
    readKey true text = .ok (some key, rest) ↔ readStringValue text = .ok (key, rest) := by
  rw [readKey, readStringValue_eq_ok_iff]
  cases skipBlanks text with
  | nil => simp
  | cons c more =>
    dsimp only
    by_cases brace : c = '}'
    · rw [if_pos brace]
      refine ⟨fun h => (by cases h), ?_⟩
      rintro ⟨_, same, -⟩
      cases same
      cases brace
    · rw [if_neg brace, if_pos rfl, readKey_quoted_eq_ok_iff]
      constructor
      · rintro ⟨rfl, read⟩
        exact ⟨more, rfl, read⟩
      · rintro ⟨_, same, read⟩
        cases same
        exact ⟨rfl, read⟩

/-- What the reader of keys takes where a comma or a closing brace comes next. -/
lemma readKey_false_eq_ok_iff :
    readKey false text = .ok (some key, rest) ↔
      ∃ more, skipBlanks text = ',' :: more ∧ readStringValue more = .ok (key, rest) := by
  rw [readKey]
  cases skipBlanks text with
  | nil => simp
  | cons c more =>
    dsimp only
    by_cases comma : c = ','
    · subst comma
      rw [if_neg (by decide), if_neg Bool.false_ne_true, if_pos rfl]
      have inner : (∃ after, ',' :: more = ',' :: after ∧ readStringValue after = .ok (key, rest)) ↔
          readStringValue more = .ok (key, rest) := by
        simp
      rw [inner, readStringValue_eq_ok_iff]
      cases skipBlanks more with
      | nil => simp
      | cons d after =>
        dsimp only
        rw [readKey_quoted_eq_ok_iff]
        constructor
        · rintro ⟨rfl, read⟩
          exact ⟨after, rfl, read⟩
        · rintro ⟨_, same, read⟩
          cases same
          exact ⟨rfl, read⟩
    · rw [if_neg Bool.false_ne_true, if_neg comma]
      constructor
      · intro h
        split at h
        case isTrue => cases h
        case isFalse => cases h
      · rintro ⟨_, same, -⟩
        cases same
        exact absurd rfl comma

/-- A key is what the reader of keys takes. -/
lemma written_key_iff :
    Written (lead first ++ .string key :: tokens) text ↔
      ∃ rest, readKey first text = .ok (some key, rest) ∧ Written tokens rest := by
  cases first with
  | true => simp only [readKey_true_eq_ok_iff, ← written_string_iff, lead, if_pos, List.nil_append]
  | false =>
    rw [lead, if_neg Bool.false_ne_true, List.singleton_append, written_mark_iff (by decide)]
    simp only [readKey_false_eq_ok_iff, written_string_iff]
    grind

lemma readKey_eq_ok_none_iff :
    readKey first text = .ok (none, rest) ↔ skipBlanks text = '}' :: rest := by
  have keyed : ∀ c more, readKey.quoted c more ≠ .ok (none, rest) := by
    intro c more
    rw [readKey.quoted]
    split
    case isTrue =>
      cases readString more with
      | error => rintro ⟨⟩
      | ok => rintro ⟨⟩
    case isFalse => rintro ⟨⟩
  rw [readKey]
  cases skipBlanks text with
  | nil => simp
  | cons c more =>
    dsimp only
    by_cases brace : c = '}'
    · simp [brace]
    · rw [if_neg brace]
      refine ⟨fun h => ?_, fun same => absurd (List.cons.inj same).1 brace⟩
      split at h
      case isTrue => exact absurd h (keyed c more)
      case isFalse =>
        split at h
        case isFalse => cases h
        case isTrue =>
          split at h
          case h_1 => cases h
          case h_2 d after _ => exact absurd h (keyed d after)

lemma written_close_iff :
    Written (.mark '}' :: tokens) text ↔
      ∃ rest, readKey first text = .ok (none, rest) ∧ Written tokens rest := by
  simp only [readKey_eq_ok_none_iff]
  exact written_mark_iff (by decide)

lemma readItem_true_eq_ok_iff :
    readItem true text = .ok (true, rest) ↔
      ∃ c more, rest = c :: more ∧ c ≠ ']' ∧ skipBlanks text = rest := by
  rw [readItem]
  cases skipBlanks text with
  | nil => exact ⟨fun h => (by cases h), by rintro ⟨c, more, rfl, -, ⟨⟩⟩⟩
  | cons c more =>
    dsimp only
    by_cases bracket : c = ']'
    · rw [if_pos bracket]
      refine ⟨fun h => (by cases h), ?_⟩
      rintro ⟨_, _, rfl, other, same⟩
      exact absurd ((List.cons.inj same).1 ▸ bracket) other
    · rw [if_neg bracket, if_pos rfl]
      constructor
      · rintro ⟨⟩
        exact ⟨c, more, rfl, bracket, rfl⟩
      · rintro ⟨_, _, -, -, rfl⟩
        rfl

lemma readItem_false_eq_ok_iff :
    readItem false text = .ok (true, rest) ↔
      ∃ more, skipBlanks text = ',' :: more ∧ readItem true more = .ok (true, rest) := by
  simp only [readItem_true_eq_ok_iff]
  rw [readItem]
  cases skipBlanks text with
  | nil => simp
  | cons c more =>
    dsimp only
    by_cases comma : c = ','
    · subst comma
      rw [if_neg (by decide), if_neg Bool.false_ne_true, if_pos rfl]
      constructor
      · intro h
        split at h
        case h_1 => cases h
        case h_2 => cases h
        case h_3 filled open' =>
          cases h
          cases after : skipBlanks more with
          | nil => exact absurd after filled
          | cons d last =>
            have other : d ≠ ']' := fun bracket => open' last (bracket ▸ after)
            exact ⟨more, rfl, d, last, rfl, other, after⟩
      · rintro ⟨_, same, d, last, rfl, other, after⟩
        cases same
        rw [after]
        split
        case h_1 empty => cases empty
        case h_2 bracket => exact absurd (List.cons.inj bracket).1 other
        case h_3 => rfl
    · rw [if_neg Bool.false_ne_true, if_neg comma]
      constructor
      · intro h
        split at h
        case isTrue => cases h
        case isFalse => cases h
      · rintro ⟨_, same, -⟩
        exact absurd (List.cons.inj same).1 comma

lemma skipBlanks_idem (text : Text) : skipBlanks (skipBlanks text) = skipBlanks text :=
  List.dropWhile_idempotent _ text

/-- An element is left by the reader of items to the reader of its value. -/
lemma written_item_iff (other : token ≠ .mark ']') :
    Written (lead first ++ token :: tokens) text ↔
      ∃ rest, readItem first text = .ok (true, rest) ∧ Written (token :: tokens) rest := by
  have begun : ∀ text, Written (token :: tokens) text ↔
      ∃ rest, readItem true text = .ok (true, rest) ∧ Written (token :: tokens) rest := by
    intro text
    simp only [readItem_true_eq_ok_iff]
    constructor
    · intro written
      obtain ⟨front, back, same, spelled, -⟩ := written_cons_iff.1 written
      obtain ⟨c, more, rfl, -, bracket⟩ := spelled.exists_cons
      refine ⟨_, ⟨c, more ++ back, rfl, mt bracket other, same⟩, ?_⟩
      rw [written_cons_iff, ← List.cons_append, ← same, skipBlanks_idem, ← written_cons_iff]
      exact written
    · rintro ⟨_, ⟨c, more, -, -, rfl⟩, written⟩
      rwa [written_cons_iff, skipBlanks_idem, ← written_cons_iff] at written
  cases first with
  | true => exact begun text
  | false =>
    rw [lead, if_neg Bool.false_ne_true, List.singleton_append, written_mark_iff (by decide)]
    simp only [readItem_false_eq_ok_iff]
    constructor
    · rintro ⟨more, comma, written⟩
      obtain ⟨rest, item, written⟩ := (begun more).1 written
      exact ⟨rest, ⟨more, comma, item⟩, written⟩
    · rintro ⟨rest, ⟨more, comma, item⟩, written⟩
      exact ⟨more, comma, (begun more).2 ⟨rest, item, written⟩⟩

/-! ### Tokens that can be spelled -/

/-- The marks among the tokens are structural characters. -/
def Structural (tokens : List Token) : Prop :=
  ∀ c, .mark c ∈ tokens → c ∈ marks

lemma structural_nil : Structural [] :=
  fun _ mem => absurd mem List.not_mem_nil

lemma Structural.append {others : List Token} (h : Structural tokens) (h' : Structural others) :
    Structural (tokens ++ others) := by
  intro c mem
  rcases List.mem_append.1 mem with front | back
  · exact h c front
  · exact h' c back

lemma structural_mark (listed : c ∈ marks) : Structural [.mark c] := by
  intro d mem
  cases List.mem_singleton.1 mem
  exact listed

lemma structural_string (value : Text) : Structural [.string value] := by
  intro c mem
  cases List.mem_singleton.1 mem

/-- Tokens have a spelling if their marks have. -/
lemma Structural.exists_written (h : Structural tokens) : ∃ text, Written tokens text := by
  induction tokens with
  | nil => exact ⟨[], .nil (List.forall_mem_nil _)⟩
  | cons token tokens ih =>
    obtain ⟨back, rest⟩ := ih fun c mem => h c (List.mem_cons_of_mem _ mem)
    have spelled : ∃ front, token.Spells front := by
      cases token with
      | mark c => exact ⟨[c], .mark (h c List.mem_cons_self)⟩
      | string value =>
        obtain ⟨front, string⟩ := exists_spellsString value
        exact ⟨front, .string string⟩
    obtain ⟨front, first⟩ := spelled
    exact ⟨[] ++ (front ++ back), .cons (List.forall_mem_nil _) first rest⟩

end Json

end Rehome
