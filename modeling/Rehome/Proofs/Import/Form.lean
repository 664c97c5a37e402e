import Rehome.Import.Reading
import Rehome.Proofs.Import.Names

/-!
# The form of an import

A spelt import consists of seven parts around the fixed words, and a semicolon belongs to it if one
follows. Main statements: a text that begins with a form is read as that form (`Form.read?_append`),
every import that is read has a form (`exists_form_of_read?`), and a rendered import is read back
whatever follows it (`read?_render_append`).
-/

namespace Rehome

namespace Text

/-- A run of blanks that is not empty. -/
def IsBlanks (blanks : Text) : Prop :=
  blanks ≠ [] ∧ ∀ c ∈ blanks, isBlank c

/-! ### Readers on what they read -/

lemma after?_append (lead rest : Text) : after? lead (lead ++ rest) = some rest :=
  after?_eq_some.2 rfl

/-- Blanks are read up to the first other character. -/
lemma blanks?_append_cons {blanks : Text} {c : Char} (h : IsBlanks blanks)
    (solid : isBlank c = false) (rest : Text) :
    blanks? (blanks ++ c :: rest) = some (blanks, c :: rest) := by
  obtain ⟨b, more, rfl⟩ := List.exists_cons_of_ne_nil h.1
  have run : (b :: more ++ c :: rest).takeWhile isBlank = b :: more := by
    rw [List.takeWhile_append_of_pos h.2, List.takeWhile_cons_of_neg (by simp [solid])]
    simp
  have left : (b :: more ++ c :: rest).dropWhile isBlank = c :: rest := by
    rw [List.dropWhile_append_of_pos h.2, List.dropWhile_cons_of_neg (by simp [solid])]
  rw [blanks?, run, left]

lemma isBlanks_of_blanks? {text blanks rest : Text} (h : text.blanks? = some (blanks, rest)) :
    IsBlanks blanks := by
  refine ⟨(blanks?_append h).2, ?_⟩
  rw [blanks?] at h
  split at h
  case h_1 => cases h
  case h_2 run =>
    cases h
    rw [← run]
    exact List.all_eq_true.1 List.all_takeWhile

/-- A run is read up to the first character that stops it. -/
lemma until?_append_cons {stop : Char → Bool} {run : Text} {last : Char} (solid : run ≠ [])
    (free : ∀ c ∈ run, stop c = false) (stops : stop last) (rest : Text) :
    until? stop (run ++ last :: rest) = some (run, last, rest) := by
  obtain ⟨c, more, rfl⟩ := List.exists_cons_of_ne_nil solid
  have free' : ∀ d ∈ c :: more, (!stop d) = true := fun d mem => by rw [free d mem]; rfl
  have run : (c :: more ++ last :: rest).takeWhile (fun d => !stop d) = c :: more := by
    rw [List.takeWhile_append_of_pos free', List.takeWhile_cons_of_neg (by simp [stops])]
    simp
  have left : (c :: more ++ last :: rest).dropWhile (fun d => !stop d) = last :: rest := by
    rw [List.dropWhile_append_of_pos free', List.dropWhile_cons_of_neg (by simp [stops])]
  rw [until?, run, left]

lemma quote?_cons {c : Char} (h : isQuote c) (rest : Text) :
    quote? (c :: rest) = some (c, rest) := by
  rw [quote?, if_pos h]

/-! ### The closing semicolon -/

lemma closing_append_cons {spaces rest : Text} (h : ∀ c ∈ spaces, isSpace c) :
    closing (spaces ++ ';' :: rest) = (spaces ++ [';'], rest) := by
  have semicolon : isSpace ';' = false := rfl
  have left : afterSpaces (spaces ++ ';' :: rest) = ';' :: rest := by
    rw [afterSpaces, List.dropWhile_append_of_pos h,
      List.dropWhile_cons_of_neg (by simp [semicolon])]
  have run : Text.spaces (spaces ++ ';' :: rest) = spaces := by
    rw [Text.spaces, List.takeWhile_append_of_pos h,
      List.takeWhile_cons_of_neg (by simp [semicolon])]
    simp
  rw [closing, left]
  simp [run]

/-- Either nothing closes, or a semicolon does with the spaces before it. -/
lemma closing_cases (text : Text) :
    closing text = ([], text) ∨
      ∃ spaces rest, (∀ c ∈ spaces, isSpace c) ∧ text = spaces ++ ';' :: rest ∧
        closing text = (spaces ++ [';'], rest) := by
  have whole := spaces_append_afterSpaces text
  rw [closing]
  split
  case h_1 rest found =>
    refine .inr ⟨text.spaces, rest, ?_, ?_, rfl⟩
    · exact List.all_eq_true.1 List.all_takeWhile
    · rw [← found]
      exact whole.symm
  case h_2 => exact .inl rfl

/-- What closes goes on closing whatever comes behind it. -/
lemma closing_append_of_ne_nil {text rest : Text} (h : text.closing.1 ≠ []) :
    closing (text.closing.1 ++ rest) = (text.closing.1, rest) := by
  rcases closing_cases text with none | ⟨spaces, more, space, -, eq⟩
  · rw [none] at h
    exact absurd rfl h
  · rw [eq, List.append_assoc]
    exact closing_append_cons space

end Text

namespace Import

/-- The parts of a spelt import, without the semicolon. -/
structure Form where
  blanks : Text
  list : Text
  before : Text
  behind : Text
  opening : Char
  module : Text
  quote : Char
  isBlanks : Text.IsBlanks blanks
  list_ne_nil : list ≠ []
  brace_notMem : '}' ∉ list
  isBlanks_before : Text.IsBlanks before
  isBlanks_behind : Text.IsBlanks behind
  isQuote_opening : Text.isQuote opening
  isModule : IsModule module
  isQuote : Text.isQuote quote

/-- An import whose names and module can be written. -/
structure Writable (found : Import) : Prop where
  names : ∀ name ∈ found.names, IsName name
  module : IsModule found.module

instance (name : Text) : Decidable (IsName name) :=
  inferInstanceAs (Decidable (_ ∧ _ ∧ _ ∧ _))

instance (module : Text) : Decidable (IsModule module) :=
  inferInstanceAs (Decidable (_ ∧ _ ∧ _))

lemma writable_singleton {name module : Text} (isName : IsName name) (isModule : IsModule module) :
    Writable ⟨[name], module⟩ := by
  refine ⟨fun other mem => ?_, isModule⟩
  rw [List.mem_singleton.1 mem]
  exact isName

lemma isModule_iff {module : Text} :
    IsModule module ↔ module ≠ [] ∧ ∀ c ∈ module, Text.isQuote c = false := by
  rw [IsModule, and_congr_right_iff]
  intro _
  constructor
  · rintro ⟨single, double⟩ c mem
    have : c ≠ '\'' := fun eq => single (eq ▸ mem)
    have : c ≠ '"' := fun eq => double (eq ▸ mem)
    simp [Text.isQuote, *]
  · intro free
    refine ⟨fun mem => ?_, fun mem => ?_⟩
    · exact absurd (free _ mem) (by decide)
    · exact absurd (free _ mem) (by decide)

lemma isQuote_of_mem_keyword {c : Char} (h : c ∈ keyword) : Text.isQuote c = false := by
  have letters : keyword.all fun d => !Text.isQuote d := rfl
  simpa using List.all_eq_true.1 letters c h

lemma isBlank_of_isQuote {c : Char} (h : Text.isQuote c) : isBlank c = false := by
  simp only [Text.isQuote, Bool.or_eq_true, decide_eq_true_eq] at h
  rcases h with rfl | rfl <;> rfl

namespace Form

/-- The word, the blanks and the brace before the names. -/
def head (form : Form) : Text :=
  keyword ++ form.blanks ++ ['{']

/-- What stands between the names and the module. -/
def middle (form : Form) : Text :=
  '}' :: form.before ++ "from".toList ++ form.behind ++ [form.opening]

def text (form : Form) : Text :=
  form.head ++ form.list ++ form.middle ++ form.module ++ [form.quote]

/-- What the import says. -/
def found (form : Form) : Import :=
  ⟨namesIn form.list, form.module⟩

lemma writable (form : Form) : form.found.Writable :=
  ⟨fun _ mem => isName_of_mem_namesIn form.brace_notMem mem, form.isModule⟩

/-- A text that begins with a form is read as that form. -/
lemma read?_append (form : Form) (rest : Text) :
    read? (form.text ++ rest) =
      some ⟨form.found, form.text ++ rest.closing.1, rest.closing.2⟩ := by
  obtain ⟨solid, free⟩ := isModule_iff.1 form.isModule
  have names : ∀ c ∈ form.list, decide (c = '}') = false := by
    intro c mem
    exact decide_eq_false fun eq => form.brace_notMem (eq ▸ mem)
  have whole : form.text ++ rest = keyword ++ (form.blanks ++ '{' :: (form.list ++ '}' ::
      (form.before ++ 'f' :: ("rom".toList ++ (form.behind ++ form.opening :: (form.module ++
        form.quote :: rest)))))) := by
    simp [text, head, middle]
  have brace : ∀ text, Text.after? ['{'] ('{' :: text) = some text := fun _ => rfl
  have word : ∀ text, Text.after? "from".toList ('f' :: ("rom".toList ++ text)) = some text :=
    Text.after?_append "from".toList
  have blanks := Text.blanks?_append_cons (c := '{') form.isBlanks rfl
  have list := Text.until?_append_cons form.list_ne_nil names (decide_eq_true (Eq.refl '}'))
  have before := Text.blanks?_append_cons (c := 'f') form.isBlanks_before rfl
  have behind := Text.blanks?_append_cons form.isBlanks_behind
    (isBlank_of_isQuote form.isQuote_opening)
  have module := Text.until?_append_cons solid free form.isQuote
  simp only [whole, read?, Option.bind_eq_bind, Option.bind_some, Text.after?_append, blanks,
    brace, list, before, word, behind, Text.quote?_cons form.isQuote_opening, module]
  simp [found, text, head, middle]

end Form

/-- Every import that is read has a form. -/
lemma exists_form_of_read? {text : Text} {spelt : Spelt} (h : read? text = some spelt) :
    ∃ form : Form, ∃ rest, text = form.text ++ rest ∧
      spelt = ⟨form.found, form.text ++ rest.closing.1, rest.closing.2⟩ := by
  have read := h
  simp only [read?, Option.bind_eq_bind, Option.bind_eq_some_iff, Option.pure_def,
    Option.some.injEq] at h
  obtain ⟨t₁, h₁, ⟨blanks, t₂⟩, h₂, t₃, h₃, ⟨list, brace, t₄⟩, h₄, ⟨before, t₅⟩, h₅, t₆, h₆,
    ⟨behind, t₇⟩, h₇, ⟨opening, t₈⟩, h₈, ⟨module, quote, t₉⟩, h₉, -⟩ := h
  have e₁ := Text.after?_eq_some.1 h₁
  have e₂ := (Text.blanks?_append h₂).1
  have e₃ := Text.after?_eq_some.1 h₃
  obtain ⟨e₄, solid₄, stop₄, free₄⟩ := Text.until?_eq_some h₄
  have e₅ := (Text.blanks?_append h₅).1
  have e₆ := Text.after?_eq_some.1 h₆
  have e₇ := (Text.blanks?_append h₇).1
  obtain ⟨e₈, quote₈⟩ := Text.quote?_append h₈
  obtain ⟨e₉, solid₉, stop₉, free₉⟩ := Text.until?_eq_some h₉
  dsimp only at e₃ e₅ e₆ e₈ e₉
  obtain rfl : brace = '}' := of_decide_eq_true stop₄
  let form : Form :=
    { blanks, list, before, behind, opening, module, quote
      isBlanks := Text.isBlanks_of_blanks? h₂
      list_ne_nil := solid₄
      brace_notMem := fun mem => absurd (free₄ _ mem) (by decide)
      isBlanks_before := Text.isBlanks_of_blanks? h₅
      isBlanks_behind := Text.isBlanks_of_blanks? h₇
      isQuote_opening := quote₈
      isModule := isModule_iff.2 ⟨solid₉, free₉⟩
      isQuote := stop₉ }
  have whole : text = form.text ++ t₉ := by
    rw [e₁, e₂, e₃, e₄, e₅, e₆, e₇, e₈, e₉]
    simp [form, Form.text, Form.head, Form.middle]
  refine ⟨form, t₉, whole, ?_⟩
  rw [whole, Form.read?_append] at read
  exact (Option.some.inj read).symm

lemma writable_of_read? {text : Text} {spelt : Spelt} (h : read? text = some spelt) :
    spelt.found.Writable := by
  obtain ⟨form, rest, -, rfl⟩ := exists_form_of_read? h
  exact form.writable

/-! ### Rendered imports -/

lemma render_eq (found : Import) :
    found.render = (keyword ++ [' ', '{', ' ']) ++ Text.joinWith ", ".toList found.names ++
      ([' ', '}', ' '] ++ "from".toList ++ [' ', '"']) ++ found.module ++ ['"', ';'] := rfl

/-- The text of an import that can be written is a form and a semicolon. -/
lemma exists_form_of_writable {found : Import} (h : found.Writable) :
    ∃ form : Form, form.found = found ∧ found.render = form.text ++ [';'] ∧
      form.list = ' ' :: Text.joinWith ", ".toList found.names ++ [' '] := by
  have blank : Text.IsBlanks [' '] := ⟨by simp, fun c mem => by cases List.mem_singleton.1 mem; rfl⟩
  have brace : '}' ∉ ' ' :: Text.joinWith ", ".toList found.names ++ [' '] := by
    have free : '}' ∉ Text.joinWith ", ".toList found.names :=
      Text.not_mem_joinWith (fun name mem => (h.names name mem).2.2.2) (by decide)
    simpa using free
  let form : Form :=
    { blanks := [' '], list := ' ' :: Text.joinWith ", ".toList found.names ++ [' ']
      before := [' '], behind := [' '], opening := '"', module := found.module, quote := '"'
      isBlanks := blank
      list_ne_nil := by simp
      brace_notMem := brace
      isBlanks_before := blank
      isBlanks_behind := blank
      isQuote_opening := rfl
      isModule := h.module
      isQuote := rfl }
  refine ⟨form, ?_, ?_, rfl⟩
  · have names : namesIn form.list = found.names := namesIn_joinWith h.names
    rw [Form.found, names]
  · rw [render_eq]
    simp only [form, Form.text, Form.head, Form.middle, List.append_assoc, List.cons_append,
      List.nil_append]

/-- A rendered import is read back whatever follows it. -/
lemma read?_render_append {found : Import} (h : found.Writable) (rest : Text) :
    read? (found.render ++ rest) = some ⟨found, found.render, rest⟩ := by
  obtain ⟨form, same, spelt, -⟩ := exists_form_of_writable h
  have closes : Text.closing (';' :: rest) = ([';'], rest) :=
    Text.closing_append_cons (List.forall_mem_nil _)
  rw [spelt, List.append_assoc, List.singleton_append, form.read?_append, closes, same]

end Import

end Rehome
