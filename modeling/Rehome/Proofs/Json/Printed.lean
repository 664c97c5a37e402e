import Rehome.Json.Printing
import Rehome.Proofs.Json.Grammar

/-!
# Printed JSON

Main statement: the text that is printed for a value spells that value (`Json.spells_print`), by the
grammar of all JSON.
-/

namespace Rehome

namespace Json

mutual

/-- A value that the program writes, as a value of all JSON. -/
def Value.data : Value → Data
  | .boolean value => .boolean value
  | .number value => .number (Text.ofNat value)
  | .string value => .string value
  | .array items => .array (dataItems items)
  | .object members => .object (dataMembers members)

/-- The items of an array as values of all JSON. -/
def dataItems : List Value → List Data
  | [] => []
  | item :: rest => item.data :: dataItems rest

/-- The members of an object as members with values of all JSON. -/
def dataMembers : List (Text × Value) → List (Text × Data)
  | [] => []
  | (key, value) :: rest => (key, value.data) :: dataMembers rest

end

variable {keyed first : Bool} {entry : Entry} {entries : List Entry} {text lead : Text}
  {parts : List Text} {depth : Nat}

/-! ### Numbers -/

lemma ofNat_eq (n : Nat) : Text.ofNat n = Nat.toDigits 10 n := by
  rw [Text.ofNat, Nat.toList_repr]

/-- The digits of a number begin with a zero only if there is no other. -/
lemma toDigits_cases (n : Nat) :
    Nat.toDigits 10 n = ['0'] ∨ (Nat.toDigits 10 n).head? ≠ some '0' := by
  induction n using Nat.strongRecOn with
  | ind n ih =>
    rw [Nat.toDigits_eq_if (by decide)]
    split
    case isTrue small =>
      have table : ∀ n < 10, [n.digitChar] = ['0'] ∨ [n.digitChar].head? ≠ some '0' := by decide
      exact table n small
    case isFalse large =>
      right
      rw [List.head?_append_of_ne_nil _ Nat.toDigits_ne_nil]
      refine (ih (n / 10) (by omega)).resolve_left fun zero => ?_
      have value : Nat.ofDigitChars 10 (Nat.toDigits 10 (n / 10)) 0 = n / 10 :=
        Nat.ofDigitChars_ten_toDigits
      rw [zero] at value
      have none : Nat.ofDigitChars 10 ['0'] 0 = 0 := rfl
      omega

lemma spellsNumber_ofNat (n : Nat) : SpellsNumber (Text.ofNat n) := by
  have digits : Digits (Text.ofNat n) := by
    rw [ofNat_eq]
    exact ⟨Nat.toDigits_ne_nil, fun c mem => Nat.isDigit_of_mem_toDigits (by decide) (by decide) mem⟩
  have counted : Text.ofNat n = ['0'] ∨ Digits (Text.ofNat n) ∧ (Text.ofNat n).head? ≠ some '0' := by
    refine Or.imp_right (fun plain => ⟨digits, plain⟩) ?_
    rw [ofNat_eq]
    exact toDigits_cases n
  have spelled := SpellsNumber.intro (.inl rfl) counted (.inl rfl) (.inl rfl)
  rwa [List.nil_append, List.append_nil, List.append_nil] at spelled

/-! ### Strings -/

lemma spellsUnit_of_lt {n : Nat} (small : n < 0x20) :
    SpellsUnit n ['0', '0', Nat.digitChar (n / 16), Nat.digitChar (n % 16)] := by
  have digit : ∀ k < 16, SpellsDigit k (Nat.digitChar k) := by decide
  have spelled := SpellsUnit.intro (digit 0 (by decide)) (digit 0 (by decide))
    (digit (n / 16) (by omega)) (digit (n % 16) (by omega))
  have value : 0 * 0x1000 + 0 * 0x100 + n / 16 * 0x10 + n % 16 = n := by omega
  rwa [value] at spelled

lemma spellsChar_escape (c : Char) : SpellsChar c (escape c) := by
  rw [escape.eq_def]
  split
  case h_8 unquoted unescaped _ _ _ _ _ =>
    split
    case isTrue control => exact .unit (spellsUnit_of_lt control)
    case isFalse visible => exact .plain unquoted unescaped (Nat.not_lt.1 visible)
  all_goals exact .short (by decide)

lemma spellsString_quote (text : Text) : SpellsString text (quote text) := by
  have chars : SpellsChars text (text.flatMap escape) := by
    induction text with
    | nil => exact .nil
    | cons c text ih => exact .cons (spellsChar_escape c) ih
  exact .intro chars

/-! ### Values -/

lemma spacing_newLine (depth : Nat) : Spacing (newLine depth) := by
  rw [newLine]
  rintro c (_ | ⟨_, mem⟩)
  · exact .inr (.inr (.inl rfl))
  · exact .inl (List.eq_of_mem_replicate mem)

/-- Entries on lines of their own, with commas between them. -/
lemma spells_joinWith (depth : Nat) (leads : Leads first lead)
    (head : entry.keyed = keyed ∧ Spells (.entry entry) text)
    (tail : List.Forall₂ (fun entry text => entry.keyed = keyed ∧ Spells (.entry entry) text)
      entries parts) :
    Spells (.entries keyed first (entry :: entries))
      (lead ++ (Text.joinWith (',' :: newLine (depth + 1)) (text :: parts) ++
        (newLine depth ++ [closing keyed]))) := by
  induction tail generalizing first entry lead text with
  | nil => exact .next head.1 leads head.2 (.close (spacing_newLine depth))
  | cons own tail ih =>
    have comma : Leads false (',' :: newLine (depth + 1)) :=
      ⟨[], _, nofun, spacing_newLine _, rfl⟩
    rw [Text.joinWith, List.append_assoc, List.append_assoc]
    · exact .next head.1 leads head.2 (ih comma own)
    · exact nofun

lemma exists_enclose (opening : Char)
    (spelled : List.Forall₂ (fun entry text => entry.keyed = keyed ∧ Spells (.entry entry) text)
      entries parts) :
    ∃ inner, enclose opening (closing keyed) depth parts = opening :: inner ∧
      Spells (.entries keyed true entries) inner := by
  cases spelled with
  | nil => exact ⟨[closing keyed], rfl, @Spells.close keyed true [] nofun⟩
  | cons head tail =>
    have leads : Leads true (newLine (depth + 1)) := spacing_newLine (depth + 1)
    refine ⟨_, ?_, spells_joinWith depth leads head tail⟩
    rw [enclose]
    · simp only [List.append_assoc, List.cons_append, List.nil_append]
    · exact nofun

mutual

/-- The text of a value spells it. -/
theorem spells_print (depth : Nat) : ∀ value : Value, Spells (.value value.data) (value.print depth)
  | .boolean value => .boolean value
  | .number value => .number (spellsNumber_ofNat value)
  | .string value => .string (spellsString_quote value)
  | .array items => by
    obtain ⟨inner, eq, spelled⟩ := exists_enclose '[' (spells_printItems (depth + 1) items)
    rw [Value.print, Value.data]
    exact eq ▸ .array spelled
  | .object members => by
    obtain ⟨inner, eq, spelled⟩ := exists_enclose '\x7b' (spells_printMembers (depth + 1) members)
    rw [Value.print, Value.data]
    exact eq ▸ .object spelled

theorem spells_printItems (depth : Nat) : ∀ items : List Value,
    List.Forall₂ (fun entry text => entry.keyed = false ∧ Spells (.entry entry) text)
      ((dataItems items).map .item) (printItems depth items)
  | [] => .nil
  | item :: rest => .cons ⟨rfl, .item (spells_print depth item)⟩ (spells_printItems depth rest)

theorem spells_printMembers (depth : Nat) : ∀ members : List (Text × Value),
    List.Forall₂ (fun entry text => entry.keyed = true ∧ Spells (.entry entry) text)
      ((dataMembers members).map .ofMember) (printMembers depth members)
  | [] => .nil
  | (key, value) :: rest => by
    have colon : Marked ':' [':', ' '] := ⟨[], [' '], nofun, by simp [Spacing], rfl⟩
    have spelled := Spells.member (spellsString_quote key) colon (spells_print depth value)
    rw [← List.append_assoc] at spelled
    exact .cons ⟨rfl, spelled⟩ (spells_printMembers depth rest)

end

/-- A value and a line break behind it are a document. -/
lemma spellsDocument_print (value : Value) :
    SpellsDocument value.data (value.print 0 ++ ['\n']) := by
  have lineBreak : Spacing ['\n'] := List.forall_mem_singleton.2 (.inr (.inr (.inl rfl)))
  exact @SpellsDocument.intro _ [] _ _ nofun (spells_print 0 value) lineBreak

end Json

end Rehome
