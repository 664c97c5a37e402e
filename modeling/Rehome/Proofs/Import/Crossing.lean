import Rehome.Proofs.Import.Form

/-!
# Imports across a cut

An edit cuts a text in two and sets another text behind the cut. What matters is whether an import
that begins before the cut goes on after it. Main statements: an import that goes on with the letter
that begins `import` also goes on into any import that stands there (`exists_read?_of_crossing`),
and what is read on one side of the cut does not depend on the other side (`read?_append_swap`).
-/

namespace Rehome

namespace Text

/-- A character of a text that is put together lies in the first part or in the second. -/
lemma append_eq_append_cons {first second before after : Text} {c : Char}
    (h : first ++ second = before ++ c :: after) :
    (∃ more, first = before ++ c :: more) ∨
      ∃ more, before = first ++ more ∧ second = more ++ c :: after := by
  rcases List.append_eq_append_iff.1 h with ⟨more, rfl, eq⟩ | ⟨more, rfl, eq⟩
  · exact .inr ⟨more, rfl, eq⟩
  · cases more with
    | nil => exact .inr ⟨[], by simp, eq.symm⟩
    | cons d more =>
      obtain ⟨rfl, -⟩ := List.cons.inj eq
      exact .inl ⟨more, rfl⟩

lemma append_eq_append_split {first second before after : Text}
    (h : first ++ second = before ++ after) :
    (∃ more, before = first ++ more ∧ second = more ++ after) ∨
      ∃ c more, first = before ++ c :: more := by
  rcases List.append_eq_append_iff.1 h with ⟨more, rfl, rfl⟩ | ⟨more, rfl, rfl⟩
  · exact .inl ⟨more, rfl, rfl⟩
  · cases more with
    | nil => exact .inl ⟨[], by simp, rfl⟩
    | cons c more => exact .inr ⟨c, more, rfl⟩

lemma last_quote_unique {before after before' after' : Text} {quote quote' : Char}
    (h : before ++ quote :: after = before' ++ quote' :: after') (isQuote₁ : isQuote quote)
    (isQuote₂ : isQuote quote') (free : ∀ c ∈ after, isQuote c = false)
    (free' : ∀ c ∈ after', isQuote c = false) : before = before' ∧ after = after' := by
  rcases append_eq_append_cons h with ⟨more, rfl⟩ | ⟨more, rfl, eq⟩
  · rw [List.append_assoc, List.append_cancel_left_eq] at h
    obtain ⟨-, eq⟩ := List.cons.inj h
    simp [free' quote (by simp [← eq])] at isQuote₁
  · cases more with
    | nil =>
      obtain ⟨-, rfl⟩ := List.cons.inj eq
      exact ⟨by simp, rfl⟩
    | cons d more =>
      obtain ⟨-, rfl⟩ := List.cons.inj eq
      simp [free quote' (by simp)] at isQuote₂

lemma exists_first {p : Char → Bool} {text : Text} (h : ∃ c ∈ text, p c) :
    ∃ run c rest, text = run ++ c :: rest ∧ p c ∧ ∀ d ∈ run, p d = false := by
  obtain ⟨c, found⟩ := Option.isSome_iff_exists.1 (List.find?_isSome.2 h)
  obtain ⟨holds, run, rest, eq, free⟩ := List.find?_eq_some_iff_append.1 found
  exact ⟨run, c, rest, eq, holds, fun d mem => by simpa using free d mem⟩

lemma mem_closing {text : Text} {c : Char} (h : c ∈ text.closing.1) : isSpace c ∨ c = ';' := by
  rcases closing_cases text with eq | ⟨spaces, rest, space, -, eq⟩
  · rw [eq] at h
    cases h
  · rw [eq, List.mem_append, List.mem_singleton] at h
    exact h.imp_left (space c)

/-- What closes ends before any other character. -/
lemma length_closing_le {before after : Text} {c : Char} (space : isSpace c = false)
    (semicolon : c ≠ ';') : (closing (before ++ c :: after)).1.length ≤ before.length := by
  rcases append_eq_append_cons (closing_append (before ++ c :: after)).symm with
    ⟨more, eq⟩ | ⟨more, eq, -⟩
  · have mem : c ∈ (closing (before ++ c :: after)).1 := by
      rw [eq]
      simp
    rcases mem_closing mem with h | h
    · simp [h] at space
    · exact absurd h semicolon
  · rw [congrArg List.length eq, List.length_append]
    omega

/-- Where nothing closes, nothing closes before the cut when another text is set behind it. -/
lemma closing_eq_nil_of_length_le {before x y : Text} (none : (closing (before ++ x)).1 = [])
    (short : (closing (before ++ y)).1.length ≤ before.length) :
    closing (before ++ y) = ([], before ++ y) := by
  rcases closing_cases (before ++ y) with eq | ⟨spaces, rest, space, whole, eq⟩
  · exact eq
  · rw [eq, List.length_append, List.length_singleton] at short
    rcases append_eq_append_cons whole with ⟨more, inside⟩ | ⟨more, outside, -⟩
    · rw [inside, List.append_assoc, List.cons_append, closing_append_cons space] at none
      simp at none
    · rw [outside, List.length_append] at short
      omega

end Text

namespace Import

namespace Form

/-- The form begins with `before`, the next character is `c`, and the cut between them lies in one
of its four parts. -/
inductive Cut (form : Form) : Text → Char → Prop where
  | head {before c after} : form.head = before ++ c :: after → Cut form before c
  | list {part c after} : form.list = part ++ c :: after → Cut form (form.head ++ part) c
  | middle {part c after} :
    form.middle = part ++ c :: after → Cut form (form.head ++ form.list ++ part) c
  | module {part c after} :
    form.module ++ [form.quote] = part ++ c :: after →
    Cut form (form.head ++ form.list ++ form.middle ++ part) c

lemma cut {form : Form} {before after : Text} {c : Char} (h : form.text = before ++ c :: after) :
    Cut form before c := by
  rw [text, List.append_assoc] at h
  rcases Text.append_eq_append_cons h with ⟨_, h⟩ | ⟨part, rfl, last⟩
  · rcases Text.append_eq_append_cons h with ⟨_, h⟩ | ⟨part, rfl, last⟩
    · rcases Text.append_eq_append_cons h with ⟨_, h⟩ | ⟨part, rfl, last⟩
      · exact .head h
      · exact .list last
    · exact .middle last
  · exact .module last

lemma mem_head {form : Form} {c : Char} (h : c ∈ form.head) :
    c ∈ keyword ∨ isBlank c ∨ c = '{' := by
  simp only [head, List.mem_append, List.mem_singleton] at h
  rcases h with (h | h) | h
  · exact .inl h
  · exact .inr (.inl (form.isBlanks.2 c h))
  · exact .inr (.inr h)

lemma mem_middle {form : Form} {c : Char} (h : c ∈ form.middle) :
    c = '}' ∨ isBlank c ∨ c ∈ "from".toList ∨ c = form.opening := by
  simp only [middle, List.mem_append, List.mem_cons, List.not_mem_nil, or_false] at h
  rcases h with (((h | h) | h) | h) | h
  · exact .inl h
  · exact .inr (.inl (form.isBlanks_before.2 c h))
  · exact .inr (.inr (.inl h))
  · exact .inr (.inl (form.isBlanks_behind.2 c h))
  · exact .inr (.inr (.inr h))

/-- What stands before a character of the middle part does not reach the opening quote. -/
lemma mem_part_of_middle {form : Form} {part after : Text} {c : Char}
    (h : form.middle = part ++ c :: after) :
    ∀ d ∈ part, d = '}' ∨ isBlank d ∨ d ∈ "from".toList := by
  intro d mem
  have inner : d ∈ '}' :: form.before ++ "from".toList ++ form.behind := by
    rcases Text.append_eq_append_cons h with ⟨more, eq⟩ | ⟨more, rfl, eq⟩
    · rw [eq]
      simp [mem]
    · cases more with
      | nil => simpa using mem
      | cons e more => simp at eq
  simp only [List.mem_append, List.mem_cons] at inner
  rcases inner with ((h | h) | h) | h
  · exact .inl h
  · exact .inr (.inl (form.isBlanks_before.2 d h))
  · exact .inr (.inr h)
  · exact .inr (.inl (form.isBlanks_behind.2 d h))

lemma brace_notMem_head (form : Form) : '}' ∉ form.head := by
  intro mem
  rcases mem_head mem with h | h | h <;> exact absurd h (by decide)

/-- The form behind a list of names that breaks off, which it closes. -/
def closer (form : Form) {blanks names : Text} (isBlanks : Text.IsBlanks blanks)
    (brace : '}' ∉ names) : Form :=
  { form with
    blanks := blanks
    list := names ++ form.head ++ form.list
    isBlanks := isBlanks
    list_ne_nil := by simp [form.list_ne_nil]
    brace_notMem := by simp [brace, form.brace_notMem_head, form.brace_notMem] }

lemma text_closer (form : Form) {blanks names : Text} (isBlanks : Text.IsBlanks blanks)
    (brace : '}' ∉ names) :
    (form.closer isBlanks brace).text = keyword ++ blanks ++ '{' :: names ++ form.text := by
  simp [closer, text, head, middle]

/-- What stands before a character of a module that is no quote holds no quote. -/
lemma isQuote_of_mem_part {form : Form} {part after : Text} {c : Char}
    (h : form.module ++ [form.quote] = part ++ c :: after) :
    ∀ d ∈ part, Text.isQuote d = false := by
  intro d mem
  obtain ⟨-, free⟩ := isModule_iff.1 form.isModule
  rcases Text.append_eq_append_cons h with ⟨more, eq⟩ | ⟨more, rfl, eq⟩
  · exact free d (by simp [eq, mem])
  · cases more with
    | nil => exact free d (by simpa using mem)
    | cons e more => simp at eq

/-- The `i` of an import behind the first character of a form belongs to its names or its module. -/
lemma cut_i {form : Form} {before : Text} (solid : before ≠ []) (h : Cut form before 'i') :
    (∃ part after, before = form.head ++ part ∧ form.list = part ++ 'i' :: after) ∨
      ∃ part after, before = form.head ++ form.list ++ form.middle ++ part ∧
        form.module ++ [form.quote] = part ++ 'i' :: after := by
  cases h with
  | @head before _ after eq =>
    obtain ⟨c, more, rfl⟩ := List.exists_cons_of_ne_nil solid
    have mem : 'i' ∈ "mport".toList ++ form.blanks ++ ['{'] := by
      rw [head, keyword] at eq
      have tail := congrArg List.tail eq
      simp at tail
      simp [tail]
    simp only [List.mem_append, List.mem_singleton] at mem
    rcases mem with (mem | mem) | mem
    · exact absurd mem (by decide)
    · exact absurd (form.isBlanks.2 _ mem) (by decide)
    · exact absurd mem (by decide)
  | list eq => exact .inl ⟨_, _, rfl, eq⟩
  | middle eq =>
    have mem : 'i' ∈ form.middle := by simp [eq]
    rcases mem_middle mem with h | h | h | h
    · exact absurd h (by decide)
    · exact absurd h (by decide)
    · exact absurd h (by decide)
    · exact absurd form.isQuote_opening (by rw [← h]; decide)
  | module eq => exact .inr ⟨_, _, rfl, eq⟩

/-- A form that is cut before an `i` goes on into any form that stands there instead. -/
lemma exists_extension (form other : Form) {before after : Text} (solid : before ≠ [])
    (h : form.text = before ++ 'i' :: after) :
    ∃ longer : Form, ∃ rest, before ++ other.text = longer.text ++ rest ∧
      before.length < longer.text.length := by
  have begins : ∃ more, other.text = 'i' :: more := ⟨_, by simp [text, head, keyword]; rfl⟩
  obtain ⟨more, begins⟩ := begins
  rcases cut_i solid (cut h) with ⟨part, after, rfl, eq⟩ | ⟨part, after, rfl, eq⟩
  -- the names go on to the other's closing brace
  · have brace : '}' ∉ part := by
      have free := form.brace_notMem
      simp only [eq, List.mem_append, not_or] at free
      exact free.1
    have spelt := other.text_closer form.isBlanks brace
    refine ⟨other.closer form.isBlanks brace, [], ?_, ?_⟩
    · rw [spelt]
      simp [head]
    · rw [spelt]
      simp [text, head]
      omega
  -- the module goes on to the other's first quote
  · have quoted : ∃ c ∈ other.text, Text.isQuote c :=
      ⟨other.quote, by simp [text], other.isQuote⟩
    obtain ⟨run, quote, rest, whole, isQuote, free⟩ := Text.exists_first quoted
    have runs : run ≠ [] := by
      rintro rfl
      rw [begins] at whole
      obtain ⟨rfl, -⟩ := List.cons.inj whole
      exact absurd isQuote (by decide)
    have free' : ∀ c ∈ part ++ run, Text.isQuote c = false := by
      intro c mem
      rw [List.mem_append] at mem
      exact mem.elim (isQuote_of_mem_part eq c) (free c)
    let longer : Form :=
      { form with
        module := part ++ run
        quote := quote
        isModule := isModule_iff.2 ⟨by simp [runs], free'⟩
        isQuote := isQuote }
    refine ⟨longer, rest, ?_, ?_⟩
    · rw [whole]
      simp [longer, text, head, middle]
    · simp [longer, text, head, middle]

end Form

/-- An import that goes on with an `i` behind the cut also goes on into any import that stands
there. -/
lemma exists_read?_of_crossing {before after rest : Text} {spelt : Spelt} (other : Form)
    (solid : before ≠ []) (h : read? (before ++ 'i' :: after) = some spelt)
    (crosses : before.length < spelt.text.length) :
    ∃ longer, read? (before ++ (other.text ++ rest)) = some longer ∧
      before.length < longer.text.length := by
  obtain ⟨form, behind, whole, rfl⟩ := exists_form_of_read? h
  rcases Text.append_eq_append_cons whole.symm with ⟨more, eq⟩ | ⟨more, rfl, rfl⟩
  · obtain ⟨longer, left, split, long⟩ := form.exists_extension other solid eq
    have read := longer.read?_append (left ++ rest)
    rw [← List.append_assoc, ← split, List.append_assoc] at read
    refine ⟨_, read, ?_⟩
    simp only [List.length_append]
    omega
  · have short : (Text.closing (more ++ 'i' :: after)).1.length ≤ more.length :=
      Text.length_closing_le rfl (by decide)
    simp only [List.length_append] at crosses
    omega

/-- An import that ends before the cut is read whatever stands behind the cut. -/
lemma read?_isSome_of_length_le {before x : Text} {spelt : Spelt}
    (h : read? (before ++ x) = some spelt) (short : spelt.text.length ≤ before.length)
    (y : Text) : ∃ other, read? (before ++ y) = some other := by
  obtain ⟨form, behind, whole, rfl⟩ := exists_form_of_read? h
  simp only [List.length_append] at short
  obtain ⟨more, rfl⟩ : form.text <+: before :=
    List.prefix_of_prefix_length_le ⟨behind, whole.symm⟩ (List.prefix_append before x) (by omega)
  exact ⟨_, by rw [List.append_assoc, form.read?_append]⟩

/-- An import that begins at a piece is the same when another text is set behind the cut, unless
it goes on across the cut now. -/
lemma read?_append_swap {text before x y : Text} {found : Import}
    (h : read? (text ++ (before ++ x)) = some ⟨found, text, before ++ x⟩)
    (inside : ∀ spelt, read? (text ++ (before ++ y)) = some spelt →
      spelt.text.length ≤ (text ++ before).length) :
    read? (text ++ (before ++ y)) = some ⟨found, text, before ++ y⟩ := by
  obtain ⟨form, behind, -, eq⟩ := exists_form_of_read? h
  obtain ⟨rfl, rfl, rest⟩ := Spelt.mk.inj eq
  by_cases none : behind.closing.1 = []
  · have whole := Text.closing_append behind
    rw [none, List.nil_append, ← rest] at whole
    rw [none, List.append_nil] at inside ⊢
    rw [whole] at none
    have read := form.read?_append (before ++ y)
    have short := inside _ read
    simp only [List.length_append, Nat.add_le_add_iff_left] at short
    rw [read, Text.closing_eq_nil_of_length_le none short, List.append_nil]
  · rw [List.append_assoc, form.read?_append, Text.closing_append_of_ne_nil none]

end Import

end Rehome
