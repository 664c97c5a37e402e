import Rehome.Import.Basic

/-!
# Reading one import

An import is recognised by its text alone: `import`, blanks, names in braces, blanks, `from`,
blanks, a quoted module, and a semicolon on the same line if there is one. No part can end at two
places, so that a reader that never goes back finds the only way to read it. Main statement: the
spelling that a reader answers and the rest are the text that it was given (`read?_append`).
-/

namespace Rehome

namespace Text

/-- The blanks that a text begins with, one at least, and what follows. -/
def blanks? (text : Text) : Option (Text × Text) :=
  match text.takeWhile isBlank with
  | [] => none
  | blank :: more => some (blank :: more, text.dropWhile isBlank)

/-- A non-empty run of characters up to the first that `stop` holds of, that one, and what follows.
None if the text ends first. -/
def until? (stop : Char → Bool) (text : Text) : Option (Text × Char × Text) :=
  match text.dropWhile fun c => !stop c with
  | [] => none
  | last :: rest =>
    match text.takeWhile fun c => !stop c with
    | [] => none
    | c :: run => some (c :: run, last, rest)

/-- A quote of either kind. -/
def isQuote (c : Char) : Bool :=
  c = '\'' || c = '"'

/-- The quote that a text begins with, and what follows. -/
def quote? : Text → Option (Char × Text)
  | [] => none
  | c :: rest => if isQuote c then some (c, rest) else none

/-- A semicolon that stands behind nothing but spaces and tabs, with these, and what follows;
nothing and the same text if there is none. -/
def closing (text : Text) : Text × Text :=
  match text.afterSpaces with
  | ';' :: rest => (text.spaces ++ [';'], rest)
  | _ => ([], text)

theorem blanks?_append {text blanks rest : Text} (h : text.blanks? = some (blanks, rest)) :
    text = blanks ++ rest ∧ blanks ≠ [] := by
  have whole := List.takeWhile_append_dropWhile (p := isBlank) (l := text)
  rw [blanks?] at h
  split at h
  case h_1 => exact nomatch h
  case h_2 blank more run =>
    cases h
    exact ⟨by rw [← run, whole], by simp⟩

/-- A run ends just before the first character that stops it. -/
theorem until?_eq_some {stop : Char → Bool} {text run rest : Text} {last : Char}
    (h : text.until? stop = some (run, last, rest)) :
    text = run ++ last :: rest ∧ run ≠ [] ∧ stop last ∧ ∀ d ∈ run, stop d = false := by
  have whole := List.takeWhile_append_dropWhile (p := fun c => !stop c) (l := text)
  rw [until?] at h
  split at h
  case h_1 => exact nomatch h
  case h_2 d after restEq =>
    split at h
    case h_1 => exact nomatch h
    case h_2 c more runEq =>
      cases h
      rw [runEq, restEq] at whole
      refine ⟨whole.symm, by simp, ?_, ?_⟩
      · have := List.head?_dropWhile_not (fun c => !stop c) text
        simpa [restEq] using this
      · intro e mem
        have := List.all_takeWhile (p := fun c => !stop c) (l := text)
        rw [runEq, List.all_eq_true] at this
        simpa using this e mem

theorem quote?_append {text rest : Text} {quote : Char} (h : text.quote? = some (quote, rest)) :
    text = quote :: rest ∧ isQuote quote := by
  cases text with
  | nil => exact nomatch h
  | cons c text =>
    rw [quote?] at h
    split at h
    case isTrue found =>
      cases h
      exact ⟨rfl, found⟩
    case isFalse => exact nomatch h

theorem closing_append (text : Text) : text = text.closing.1 ++ text.closing.2 := by
  have whole := spaces_append_afterSpaces text
  rw [closing]
  split
  case h_1 rest found => simpa [found] using whole.symm
  case h_2 => rfl

end Text

/-- The import that a text begins with: what it says, how it is spelt, and what follows it. -/
structure Spelt where
  found : Import
  text : Text
  rest : Text
  deriving DecidableEq

namespace Import

/-- The word that an import begins with. -/
def keyword : Text := "import".toList

/-- The import that a text begins with. -/
def read? (text : Text) : Option Spelt := do
  let text ← Text.after? keyword text
  let (blanks, text) ← text.blanks?
  let text ← Text.after? ['{'] text
  let (list, brace, text) ← text.until? (· = '}')
  let (before, text) ← text.blanks?
  let text ← Text.after? "from".toList text
  let (behind, text) ← text.blanks?
  let (opening, text) ← text.quote?
  let (module, quote, text) ← text.until? Text.isQuote
  return {
    found := ⟨namesIn list, module⟩
    text := keyword ++ blanks ++ '{' :: list ++ brace :: before ++ "from".toList ++ behind ++
      opening :: module ++ quote :: text.closing.1
    rest := text.closing.2 }

/-- The spelling is not empty, and with the rest it is the text. -/
theorem read?_append {text : Text} {spelt : Spelt} (h : read? text = some spelt) :
    text = spelt.text ++ spelt.rest ∧ spelt.text ≠ [] := by
  simp only [read?, Option.bind_eq_bind, Option.bind_eq_some_iff, Option.pure_def,
    Option.some.injEq] at h
  obtain ⟨t₁, h₁, ⟨blanks, t₂⟩, h₂, t₃, h₃, ⟨list, brace, t₄⟩, h₄, ⟨before, t₅⟩, h₅, t₆, h₆,
    ⟨behind, t₇⟩, h₇, ⟨opening, t₈⟩, h₈, ⟨module, quote, t₉⟩, h₉, rfl⟩ := h
  have e₁ := Text.after?_eq_some.1 h₁
  have e₂ := (Text.blanks?_append h₂).1
  have e₃ := Text.after?_eq_some.1 h₃
  have e₄ := (Text.until?_eq_some h₄).1
  have e₅ := (Text.blanks?_append h₅).1
  have e₆ := Text.after?_eq_some.1 h₆
  have e₇ := (Text.blanks?_append h₇).1
  have e₈ := (Text.quote?_append h₈).1
  have e₉ := (Text.until?_eq_some h₉).1
  have e₁₀ := Text.closing_append t₉
  dsimp only at e₃ e₅ e₆ e₈ e₉ ⊢
  refine ⟨?_, by simp [keyword]⟩
  rw [e₁, e₂, e₃, e₄, e₅, e₆, e₇, e₈, e₉]
  conv => lhs; rw [e₁₀]
  simp

theorem read?_length_lt {text : Text} {spelt : Spelt} (h : read? text = some spelt) :
    spelt.rest.length < text.length := by
  obtain ⟨whole, nonempty⟩ := read?_append h
  have := List.length_pos_iff.2 nonempty
  rw [whole, List.length_append]
  omega

end Import

end Rehome
