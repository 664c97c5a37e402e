import Rehome.Proofs.Rewrite.Table

/-!
# Edits of a text

What a rule writes into a text, character by character. What it takes away is an import, which ends
with a quote or a semicolon, and it writes no names and modules but those of the text and its own.
Main statements: what is left when a type is taken out (`Rule.exists_left_eq`), and the four ways in
which it is listed again (`Text.enlist_cases`).
-/

namespace Rehome

/-- The text ends with a quote or a semicolon, as imports and seams do. -/
def Text.EndsClosed (text : Text) : Prop :=
  ∃ init c, text = init ++ [c] ∧ (Text.isQuote c ∨ c = ';')

lemma Text.EndsClosed.append_left {text : Text} (h : text.EndsClosed) (before : Text) :
    EndsClosed (before ++ text) := by
  obtain ⟨init, c, rfl, stop⟩ := h
  exact ⟨before ++ init, c, (List.append_assoc ..).symm, stop⟩

namespace Import

lemma endsClosed_of_read? {text : Text} {spelt : Spelt} (h : read? text = some spelt) :
    spelt.text.EndsClosed := by
  obtain ⟨form, behind, -, rfl⟩ := exists_form_of_read? h
  rcases Text.closing_cases behind with eq | ⟨spaces, rest, -, -, eq⟩
  · refine ⟨form.head ++ form.list ++ form.middle ++ form.module, form.quote, ?_, .inl form.isQuote⟩
    rw [eq, List.append_nil, Form.text]
  · refine ⟨form.text ++ spaces, ';', ?_, .inr rfl⟩
    rw [eq, List.append_assoc]

/-- The names of an import stand in its text, and so does its module behind a quote. -/
lemma infix_of_read? {text : Text} {spelt : Spelt} (h : read? text = some spelt) :
    (∀ name ∈ spelt.found.names, name <:+: spelt.text) ∧
      ∃ quote, Text.isQuote quote ∧ quote :: spelt.found.module <:+: spelt.text := by
  obtain ⟨form, behind, -, rfl⟩ := exists_form_of_read? h
  refine ⟨fun name mem => ?_, form.opening, form.isQuote_opening, ?_⟩
  · refine (infix_of_mem_namesIn mem).trans ⟨form.head, ?_, ?_⟩
    · exact form.middle ++ form.module ++ [form.quote] ++ behind.closing.1
    · simp [Form.text]
  · refine ⟨form.head ++ form.list ++ '}' :: form.before ++ "from".toList ++ form.behind, ?_, ?_⟩
    · exact [form.quote] ++ behind.closing.1
    · simp [Form.text, Form.middle, Form.found]

end Import

namespace Text

lemma infix_of_mem_table {text : Text} {found : Import} (h : found ∈ text.table) :
    (∀ name ∈ found.names, name <:+: text) ∧
      ∃ quote, isQuote quote ∧ quote :: found.module <:+: text := by
  obtain ⟨before, own, after, pieces⟩ := exists_of_mem_table h
  have inside : own <:+: text := ⟨_, _, (eq_of_pieces_eq pieces).symm⟩
  obtain ⟨names, quote, isQuote, module⟩ := Import.infix_of_read? (read?_of_pieces_eq pieces)
  exact ⟨fun name mem => (names name mem).trans inside, quote, isQuote, module.trans inside⟩

/-- The first import of a module stands in the text between what is before and behind it, and any
text can be set in its place. -/
lemma exists_splice_eq {text module : Text} {statement : Statement}
    (first : text.importOf? module = some statement) :
    ∃ before own after, text = before ++ own ++ after ∧ own.EndsClosed ∧
      ∀ new, text.splice statement.start statement.stop new = before ++ new ++ after := by
  obtain ⟨before, own, after, pieces, start, stop, -, -⟩ := exists_of_importOf?_eq_some first
  exact ⟨_, own, _, eq_of_pieces_eq pieces,
    Import.endsClosed_of_read? (read?_of_pieces_eq pieces), fun new => splice_statement pieces start stop⟩

/-- How a type is listed in a text: it is there already, or the first import of the destination is
written anew, or a new import is written behind the directive or before everything. -/
lemma enlist_cases (text typeName destination : Text) :
    text.enlist typeName destination = text ∨
      (∃ statement before own after, text.importOf? destination = some statement ∧
        text = before ++ own ++ after ∧ own.EndsClosed ∧ text.enlist typeName destination =
          before ++ Import.render ⟨statement.names ++ [typeName], statement.module⟩ ++ after) ∨
      (∃ before after, text = before ++ after ∧ before.EndsClosed ∧
        text.enlist typeName destination =
          before ++ (after.lineBreak ++ (Import.render ⟨[typeName], destination⟩ ++ after))) ∨
      text.enlist typeName destination =
        Import.render ⟨[typeName], destination⟩ ++ text.lineBreak ++ text := by
  rw [enlist]
  cases first : text.importOf? destination with
  | some statement =>
    by_cases listed : typeName ∈ statement.names
    · exact .inl (if_pos listed)
    · obtain ⟨before, own, after, whole, ends, splice⟩ := exists_splice_eq first
      refine .inr (.inl ⟨statement, before, own, after, rfl, whole, ends, ?_⟩)
      exact (if_neg listed).trans (splice _)
  | none =>
    cases point : Placement.point? text with
    | none => exact .inr (.inr (.inr (by simp only [Placement.insert, point])))
    | some n =>
      obtain ⟨before, after, seam, rfl, rfl⟩ := Placement.exists_seam_of_point? point
      refine .inr (.inr (.inl ⟨before, after, rfl, ?_, Placement.insert_of_point? point _⟩))
      refine seam.exists_last (List.nil_append _).symm ?_
      obtain ⟨front, spelling, rest, mem, rfl, -⟩ := seam
      simp only [Placement.spellings, List.mem_cons, List.not_mem_nil, or_false] at mem
      rcases mem with rfl | rfl <;> simp

end Text

/-- What is left when a rule takes its type out: the text without the import, or with its other
names. -/
lemma Rule.exists_left_eq {rule : Rule} {text : Text} {statement : Statement}
    (first : text.importOf? rule.home = some statement) :
    ∃ before own after new, text = before ++ own ++ after ∧ own.EndsClosed ∧
      rule.left text = before ++ new ++ after ∧
        (new = [] ∨ new = Import.render ⟨statement.names.erase rule.typeName, statement.module⟩) := by
  obtain ⟨before, own, after, whole, ends, splice⟩ := Text.exists_splice_eq first
  rw [left_of_some first, Text.withdraw]
  split
  case h_1 => exact ⟨before, own, after, [], whole, ends, splice _, .inl rfl⟩
  case h_2 => exact ⟨before, own, after, _, whole, ends, splice _, .inr rfl⟩

end Rehome
