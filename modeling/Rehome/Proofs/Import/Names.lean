import Mathlib.Data.List.DropRight
import Mathlib.Tactic.Lemma
import Rehome.Import.Basic

/-!
# Names in a list

A list of names is read by splitting at commas and trimming the parts, and written by joining names
with a comma and a blank. Main statements: what is read is a name (`isName_of_mem_namesIn`), what is
written is read back (`namesIn_joinWith`), and a word without a comma that stands in the list stands
in one of the names (`exists_infix_of_infix`).
-/

namespace Rehome

namespace Text

/-! ### Trimming -/

/-- A text keeps its start exactly if it does not begin with a blank. -/
lemma trimStart_cons_eq_self_iff {c : Char} {rest : Text} :
    trimStart (c :: rest) = c :: rest ↔ ¬ isBlank c := by
  constructor
  · intro h blank
    rw [trimStart, List.dropWhile_cons_of_pos blank] at h
    have short := (List.dropWhile_suffix (l := rest) isBlank).length_le
    rw [h, List.length_cons] at short
    omega
  · intro solid
    rw [trimStart, List.dropWhile_cons_of_neg solid]

lemma trimStart_append {blanks text : Text} (h : blanks.all isBlank) :
    trimStart (blanks ++ text) = trimStart text := by
  rw [List.all_eq_true] at h
  rw [trimStart, List.dropWhile_append_of_pos h, trimStart]

/-- Trimming keeps a text exactly if neither end of it is blank. -/
lemma trim_eq_self_iff {text : Text} :
    text.trim = text ↔ text.trimStart = text ∧ trimStart text.reverse = text.reverse := by
  constructor
  · intro h
    have long : text.trim.length = text.length := congrArg List.length h
    have suffix₁ := List.dropWhile_suffix (l := text) isBlank
    have suffix₂ := List.dropWhile_suffix (l := text.trimStart.reverse) isBlank
    have short₁ := suffix₁.length_le
    have short₂ := suffix₂.length_le
    simp only [trim, trimStart, List.length_reverse] at long short₂
    have start : text.trimStart = text := suffix₁.eq_of_length (by omega)
    refine ⟨start, ?_⟩
    rw [trim, start] at h
    exact List.reverse_eq_iff.1 h
  · rintro ⟨start, stop⟩
    rw [trim, start, stop, List.reverse_reverse]

/-- The part that trimming keeps, between the blanks that it takes away. -/
lemma trim_split (text : Text) :
    ∃ before after, text = before ++ text.trim ++ after ∧ before.all isBlank ∧
      after.all isBlank := by
  have front := List.takeWhile_append_dropWhile (p := isBlank) (l := text)
  have back := List.takeWhile_append_dropWhile (p := isBlank) (l := text.trimStart.reverse)
  refine ⟨text.takeWhile isBlank, (text.trimStart.reverse.takeWhile isBlank).reverse, ?_,
    List.all_takeWhile, by rw [List.all_reverse]; exact List.all_takeWhile⟩
  have back' : text.trim ++ (text.trimStart.reverse.takeWhile isBlank).reverse =
      text.trimStart := by
    rw [trim, trimStart, ← List.reverse_append, back, List.reverse_reverse]
  rw [List.append_assoc, back']
  exact front.symm

lemma trim_infix (text : Text) : text.trim <:+: text := by
  obtain ⟨before, after, eq, -, -⟩ := text.trim_split
  exact ⟨before, after, eq.symm⟩

lemma trim_trim (text : Text) : text.trim.trim = text.trim := by
  rw [trim_eq_self_iff]
  refine ⟨?_, ?_⟩
  · cases kept : text.trim with
    | nil => rfl
    | cons c rest =>
      have begins : text.trim <+: text.trimStart := by
        rw [trim, ← List.reverse_suffix, List.reverse_reverse]
        exact List.dropWhile_suffix isBlank
      obtain ⟨more, eq⟩ := begins
      have twice : trimStart text.trimStart = text.trimStart :=
        List.dropWhile_idempotent isBlank text
      rw [← eq, kept, List.cons_append, trimStart_cons_eq_self_iff] at twice
      exact trimStart_cons_eq_self_iff.2 twice
  · rw [trim, List.reverse_reverse]
    exact List.dropWhile_idempotent isBlank _

/-- Blanks around a trimmed text do not count. -/
lemma trim_pad {before text after : Text} (trimmed : text.trim = text)
    (front : before.all isBlank) (back : after.all isBlank) :
    (before ++ text ++ after).trim = text := by
  obtain ⟨start, stop⟩ := trim_eq_self_iff.1 trimmed
  have back' : after.reverse.all isBlank := by rw [List.all_reverse]; exact back
  cases text with
  | nil =>
    have blank : (before ++ after).all isBlank := by simp [front, back]
    have none : trimStart (before ++ after) = [] :=
      List.dropWhile_eq_nil_iff.2 (List.all_eq_true.1 blank)
    rw [List.append_nil, trim, none]
    rfl
  | cons c rest =>
    have solid := trimStart_cons_eq_self_iff.1 start
    have start' : trimStart (before ++ (c :: rest) ++ after) = c :: rest ++ after := by
      rw [List.append_assoc, trimStart_append front, List.cons_append]
      exact trimStart_cons_eq_self_iff.2 solid
    rw [trim, start', List.reverse_append, trimStart_append back', stop, List.reverse_reverse]

/-- A word of which neither end is blank stands inside the trimmed text. -/
lemma infix_trim {word text : Text} (solid : word ≠ []) (trimmed : word.trim = word)
    (h : word <:+: text) : word <:+: text.trim := by
  obtain ⟨start, stop⟩ := trim_eq_self_iff.1 trimmed
  have drop : ∀ {word text : Text}, word ≠ [] → word.trimStart = word → word <:+: text →
      word <:+: text.trimStart := by
    intro word text solid start ⟨before, after, eq⟩
    rw [← eq, trimStart, List.append_assoc, List.dropWhile_append]
    split
    case isTrue =>
      cases word with
      | nil => exact absurd rfl solid
      | cons c word =>
        rw [List.cons_append, List.dropWhile_cons_of_neg (trimStart_cons_eq_self_iff.1 start)]
        exact ⟨[], after, by simp⟩
    case isFalse => exact ⟨_, after, List.append_assoc ..⟩
  have once := List.reverse_infix.2 (drop solid start h)
  have twice := drop (by simpa using solid) stop once
  rw [trim, ← List.reverse_infix, List.reverse_reverse]
  exact twice

/-! ### Splitting -/

lemma splitOn_of_not_mem {separator : Char} {part : Text} (h : separator ∉ part) :
    splitOn separator part = [part] := by
  induction part with
  | nil => rfl
  | cons c part ih =>
    rw [List.mem_cons, not_or] at h
    rw [splitOn, if_neg (Ne.symm h.1), ih h.2]

lemma splitOn_append {separator : Char} {part rest : Text} (h : separator ∉ part) :
    splitOn separator (part ++ separator :: rest) = part :: splitOn separator rest := by
  induction part with
  | nil => rw [List.nil_append, splitOn, if_pos rfl]
  | cons c part ih =>
    rw [List.mem_cons, not_or] at h
    rw [List.cons_append, splitOn, if_neg (Ne.symm h.1), ih h.2]

/-- A text has no separator, or it has a first one. -/
lemma first_separator (separator : Char) (text : Text) :
    separator ∉ text ∨ ∃ part rest, separator ∉ part ∧ text = part ++ separator :: rest := by
  by_cases h : separator ∈ text
  · obtain ⟨part, rest, eq, first⟩ := List.eq_append_cons_of_mem h
    exact .inr ⟨part, rest, first, eq⟩
  · exact .inl h

lemma joinWith_cons_cons (separator part next : Text) (parts : List Text) :
    joinWith separator (part :: next :: parts) =
      part ++ separator ++ joinWith separator (next :: parts) := rfl

/-- A character of neither the separator nor the parts is not in the joined text. -/
lemma not_mem_joinWith {separator : Text} {parts : List Text} {c : Char}
    (free : ∀ part ∈ parts, c ∉ part) (apart : c ∉ separator) : c ∉ joinWith separator parts := by
  induction parts with
  | nil => exact List.not_mem_nil
  | cons part parts ih =>
    have first := free part List.mem_cons_self
    cases parts with
    | nil => exact first
    | cons next parts =>
      have rest := ih fun part mem => free part (List.mem_cons_of_mem _ mem)
      rw [joinWith_cons_cons, List.mem_append, List.mem_append]
      rintro ((mem | mem) | mem)
      · exact first mem
      · exact apart mem
      · exact rest mem

/-- A word without the separator stands on one side of it. -/
lemma infix_append_cons {word part rest : Text} {separator : Char} (h : separator ∉ word)
    (inside : word <:+: part ++ separator :: rest) : word <:+: part ∨ word <:+: rest := by
  have begins : ∀ part, word <+: part ++ separator :: rest → word <+: part := by
    intro part ⟨after, eq⟩
    rcases List.append_eq_append_iff.1 eq with ⟨more, rfl, -⟩ | ⟨more, rfl, tail⟩
    · exact List.prefix_append word more
    · cases more with
      | nil => simp
      | cons c more =>
        obtain ⟨rfl, -⟩ := List.cons.inj tail
        simp at h
  induction part with
  | nil =>
    rcases List.infix_cons_iff.1 inside with inside | inside
    · exact .inl (begins [] inside).isInfix
    · exact .inr inside
  | cons c part ih =>
    rcases List.infix_cons_iff.1 inside with inside | inside
    · exact .inl (begins (c :: part) inside).isInfix
    · exact (ih inside).imp_left fun inside => inside.trans (List.suffix_cons c part).isInfix

end Text

namespace Import

/-! ### Reading names -/

lemma namesIn_of_not_mem {list : Text} (h : ',' ∉ list) :
    namesIn list = if list.trim = [] then [] else [list.trim] := by
  rw [namesIn, Text.splitOn_of_not_mem h]
  by_cases empty : list.trim = [] <;> simp [empty]

lemma namesIn_append {part : Text} (h : ',' ∉ part) (rest : Text) :
    namesIn (part ++ ',' :: rest) =
      if part.trim = [] then namesIn rest else part.trim :: namesIn rest := by
  rw [namesIn, Text.splitOn_append h]
  by_cases empty : part.trim = [] <;> simp [empty, namesIn]

/-- Induction on a list of names by its commas. -/
@[elab_as_elim]
lemma list_induction {motive : Text → Prop} (last : ∀ part, ',' ∉ part → motive part)
    (more : ∀ part rest, ',' ∉ part → motive rest → motive (part ++ ',' :: rest))
    (list : Text) : motive list := by
  induction size : list.length using Nat.strong_induction_on generalizing list with
  | _ n ih =>
    obtain h | ⟨part, rest, first, rfl⟩ := Text.first_separator ',' list
    · exact last list h
    · refine more part rest first (ih rest.length ?_ rest rfl)
      rw [← size, List.length_append, List.length_cons]
      omega

lemma isName_trim {part : Text} (comma : ',' ∉ part) (brace : '}' ∉ part)
    (solid : part.trim ≠ []) : IsName part.trim := by
  obtain ⟨before, after, eq, -, -⟩ := Text.trim_split part
  have sub : ∀ c ∈ part.trim, c ∈ part := by
    intro c mem
    rw [eq]
    simp [mem]
  exact ⟨solid, part.trim_trim, fun mem => comma (sub _ mem), fun mem => brace (sub _ mem)⟩

/-- What is read from a list inside braces is a name. -/
lemma isName_of_mem_namesIn {list name : Text} (brace : '}' ∉ list)
    (mem : name ∈ namesIn list) : IsName name := by
  induction list using list_induction with
  | last part comma =>
    rw [namesIn_of_not_mem comma] at mem
    split at mem
    case isTrue => cases mem
    case isFalse solid =>
      cases List.mem_singleton.1 mem
      exact isName_trim comma brace solid
  | more part rest comma ih =>
    simp only [List.mem_append, List.mem_cons, not_or] at brace
    rw [namesIn_append comma] at mem
    split at mem
    case isTrue => exact ih brace.2.2 mem
    case isFalse solid =>
      rcases List.mem_cons.1 mem with rfl | mem
      · exact isName_trim comma brace.1 solid
      · exact ih brace.2.2 mem

/-- What is read from a list stands in it. -/
lemma infix_of_mem_namesIn {list name : Text} (mem : name ∈ namesIn list) : name <:+: list := by
  induction list using list_induction with
  | last part comma =>
    rw [namesIn_of_not_mem comma] at mem
    split at mem
    case isTrue => cases mem
    case isFalse =>
      cases List.mem_singleton.1 mem
      exact Text.trim_infix part
  | more part rest comma ih =>
    have tail : rest <:+: part ++ ',' :: rest := ⟨part ++ [','], [], by simp⟩
    rw [namesIn_append comma] at mem
    split at mem
    case isTrue => exact (ih mem).trans tail
    case isFalse =>
      rcases List.mem_cons.1 mem with rfl | mem
      · exact (Text.trim_infix part).trans (List.prefix_append _ _).isInfix
      · exact (ih mem).trans tail

/-- Names that are written in a list with a blank at either end are read back. -/
lemma namesIn_joinWith {names : List Text} (h : ∀ name ∈ names, IsName name) :
    namesIn (' ' :: Text.joinWith ", ".toList names ++ [' ']) = names := by
  induction names with
  | nil => rfl
  | cons name names ih =>
    have isName := h name List.mem_cons_self
    cases names with
    | nil =>
      have comma : ',' ∉ [' '] ++ name ++ [' '] := by simp [isName.2.2.1]
      have kept : Text.trim ([' '] ++ name ++ [' ']) = name := Text.trim_pad isName.2.1 rfl rfl
      have read := namesIn_of_not_mem comma
      rw [kept, if_neg isName.1] at read
      exact read
    | cons next names =>
      have comma : ',' ∉ [' '] ++ name ++ [] := by simp [isName.2.2.1]
      have kept : Text.trim ([' '] ++ name ++ []) = name := Text.trim_pad isName.2.1 rfl rfl
      have rest := ih fun name mem => h name (List.mem_cons_of_mem _ mem)
      have read := namesIn_append comma (' ' :: Text.joinWith ", ".toList (next :: names) ++ [' '])
      rw [kept, if_neg isName.1, rest] at read
      rw [Text.joinWith_cons_cons]
      refine Eq.trans ?_ read
      simp

/-! ### Words in a list -/

/-- A word without a comma that stands in a list stands in one of its names. -/
lemma exists_infix_of_infix {word list : Text} (solid : word ≠ []) (trimmed : word.trim = word)
    (comma : ',' ∉ word) (h : word <:+: list) : ∃ name ∈ namesIn list, word <:+: name := by
  have kept : ∀ part : Text, word <:+: part.trim → part.trim ≠ [] :=
    fun part inside empty => solid (List.infix_nil.1 (empty ▸ inside))
  induction list using list_induction with
  | last part single =>
    have inside := Text.infix_trim solid trimmed h
    rw [namesIn_of_not_mem single, if_neg (kept part inside)]
    exact ⟨part.trim, List.mem_cons_self, inside⟩
  | more part rest single ih =>
    rw [namesIn_append single]
    rcases Text.infix_append_cons comma h with inside | inside
    · have inside := Text.infix_trim solid trimmed inside
      rw [if_neg (kept part inside)]
      exact ⟨part.trim, List.mem_cons_self, inside⟩
    · obtain ⟨name, mem, inside⟩ := ih inside
      refine ⟨name, ?_, inside⟩
      split
      · exact mem
      · exact List.mem_cons_of_mem _ mem

/-- What has no comma of its own joins the last name before it, with any word in it, and leaves the
others. -/
lemma mem_namesIn_append {word list tail name : Text} (solid : word ≠ [])
    (trimmed : word.trim = word) (comma : ',' ∉ tail) (inside : word <:+: tail) (other : Text)
    (mem : name ∈ namesIn (list ++ tail)) : word <:+: name ∨ name ∈ namesIn (list ++ other) := by
  induction list using list_induction with
  | last part single =>
    have free : ',' ∉ part ++ tail := by
      rw [List.mem_append]
      exact not_or_intro single comma
    rw [namesIn_of_not_mem free] at mem
    split at mem
    case isTrue => cases mem
    case isFalse =>
      cases List.mem_singleton.1 mem
      exact .inl (Text.infix_trim solid trimmed (inside.trans (List.suffix_append part tail).isInfix))
  | more part rest single ih =>
    rw [List.append_assoc, List.cons_append, namesIn_append single] at mem ⊢
    split at mem
    case isTrue empty =>
      rw [if_pos empty]
      exact ih mem
    case isFalse filled =>
      rw [if_neg filled]
      rcases List.mem_cons.1 mem with rfl | mem
      · exact .inr List.mem_cons_self
      · exact (ih mem).imp_right (List.mem_cons_of_mem _)

end Import

end Rehome
