import Mathlib.Data.List.Chain
import Rehome.Proofs.Import.Grammar
import Rehome.Proofs.Rewrite.Edits

/-!
# Line breaks

The lines of a text end with a carriage return and a line feed, or with a line feed alone. A rule
guesses which from the first line break behind the place where it writes a line, and it writes names
that can hold line breaks of their own. Main statement: a pass keeps either form
(`Rules.lineBreaks_rewrite`).
-/

namespace Rehome

namespace Text

/-- No line feed stands first, or behind any character but a carriage return. -/
def Paired (text : Text) : Prop :=
  text.head? ≠ some '\n' ∧ text.IsChain fun c d => d = '\n' → c = '\r'

/-- Every line feed follows a carriage return, and the text ends with the two. -/
structure Crlf (text : Text) : Prop where
  paired : text.Paired
  ends : ['\r', '\n'] <:+ text

instance (text : Text) : Decidable text.Paired :=
  inferInstanceAs (Decidable (_ ∧ _))

instance (text : Text) : Decidable text.Crlf :=
  decidable_of_iff (text.Paired ∧ ['\r', '\n'] <:+ text)
    ⟨fun h => ⟨h.1, h.2⟩, fun h => ⟨h.paired, h.ends⟩⟩

/-! ### Paired texts -/

lemma Paired.append {front back : Text} (h : front.Paired) (h' : back.Paired) :
    Paired (front ++ back) := by
  constructor
  · cases front with
    | nil => exact h'.1
    | cons c front => exact h.1
  · refine List.isChain_append.2 ⟨h.2, h'.2, fun c _ d first feed => ?_⟩
    exact absurd (feed ▸ first) h'.1

lemma Paired.part {text part : Text} (h : text.Paired) (inside : part <:+: text)
    (head : part.head? ≠ some '\n') : part.Paired :=
  ⟨head, List.IsChain.infix h.2 inside⟩

lemma Paired.left {front back : Text} (h : Paired (front ++ back)) : front.Paired := by
  refine h.part (List.prefix_append front back).isInfix ?_
  cases front with
  | nil => simp
  | cons c front => exact h.1

/-- Behind any character but a carriage return the text is paired again. -/
lemma Paired.tail {c : Char} {rest : Text} (h : Paired (c :: rest)) (other : c ≠ '\r') :
    rest.Paired := by
  refine h.part (List.suffix_cons c rest).isInfix ?_
  cases rest with
  | nil => simp
  | cons d rest =>
    rintro ⟨⟩
    exact other ((List.isChain_cons_cons.1 h.2).1 rfl)

lemma paired_of_notMem {text : Text} (h : '\n' ∉ text) : text.Paired := by
  induction text with
  | nil => exact ⟨by simp, .nil⟩
  | cons c text ih =>
    rw [List.mem_cons, not_or] at h
    have single : Paired [c] := ⟨by simpa using Ne.symm h.1, .singleton c⟩
    exact single.append (ih h.2)

lemma paired_joinWith {parts : List Text} (h : ∀ part ∈ parts, part.Paired) :
    (joinWith ", ".toList parts).Paired := by
  induction parts with
  | nil => exact paired_of_notMem List.not_mem_nil
  | cons part parts ih =>
    obtain ⟨first, rest⟩ := List.forall_mem_cons.1 h
    cases parts with
    | nil => exact first
    | cons next parts =>
      rw [joinWith_cons_cons]
      exact (first.append (paired_of_notMem (by decide))).append (ih rest)

lemma paired_render {names : List Text} {module : Text} (h : ∀ name ∈ names, name.Paired)
    (h' : module.Paired) : (Import.render ⟨names, module⟩).Paired := by
  have lead : Paired (Import.keyword ++ [' ', '{', ' ']) := by decide
  have middle : Paired ([' ', '}', ' '] ++ "from".toList ++ [' ', '"']) := by decide
  have tail : Paired ['"', ';'] := by decide
  rw [Import.render_eq]
  exact (((lead.append (paired_joinWith h)).append middle).append h').append tail

/-- What a paired text imports is paired, for names begin with no blank and a module follows a
quote. -/
lemma Paired.of_mem_table {text : Text} {found : Import} (h : text.Paired)
    (mem : found ∈ text.table) : (∀ name ∈ found.names, name.Paired) ∧ found.module.Paired := by
  obtain ⟨names, quote, isQuote, module⟩ := infix_of_mem_table mem
  constructor
  · intro name listed
    obtain ⟨-, trimmed, -⟩ := (writable_of_mem_table mem).names name listed
    have solid := trimStart_eq_self_iff.1 (trim_eq_self_iff.1 trimmed).1
    refine h.part (names name listed) fun feed => ?_
    exact absurd (solid '\n' feed) (by decide)
  · refine Paired.tail (h.part module ?_) ?_
    · rintro ⟨⟩
      exact absurd isQuote (by decide)
    · rintro rfl
      exact absurd isQuote (by decide)

/-! ### Texts that end with both -/

lemma Paired.append_crlf {front back : Text} (h : front.Paired) (h' : back.Crlf) :
    Crlf (front ++ back) :=
  ⟨h.append h'.paired, h'.ends.trans (List.suffix_append front back)⟩

/-- What a text ends with stands behind any character that it has not. -/
lemma suffix_of_append_cons {part front back : Text} {c : Char} (h : part <:+ front ++ c :: back)
    (free : c ∉ part) : part <:+ back := by
  rcases List.suffix_or_suffix_of_suffix h (List.suffix_append front (c :: back)) with inside | longer
  · rcases List.suffix_cons_iff.1 inside with rfl | inside
    · exact absurd List.mem_cons_self free
    · exact inside
  · exact absurd (longer.subset List.mem_cons_self) free

/-- Behind a quote or a semicolon the lines have the same form. -/
lemma Crlf.right {front back : Text} (h : Crlf (front ++ back)) (closed : front.EndsClosed) :
    back.Crlf := by
  obtain ⟨init, c, rfl, stop⟩ := closed
  have other : c ∉ ['\r', '\n'] := by
    rw [List.mem_pair]
    rintro (rfl | rfl) <;> exact absurd stop (by decide)
  rw [List.append_assoc, List.singleton_append] at h
  refine ⟨Paired.tail (c := c) (h.paired.part (List.suffix_append init _).isInfix ?_) ?_, ?_⟩
  · rintro ⟨⟩
    exact other (by simp)
  · rintro rfl
    exact other (by simp)
  · exact suffix_of_append_cons h.ends other

lemma Crlf.lineBreak_eq {text : Text} (h : text.Crlf) : text.lineBreak = ['\r', '\n'] := by
  induction text using lineBreak.induct with
  | case1 => exact absurd h.ends (by decide)
  | case2 => rfl
  | case3 => exact absurd rfl h.paired.1
  | case4 c rest notBreak notFeed ih =>
    -- a line feed that comes next would follow a carriage return
    have other : rest.head? ≠ some '\n' := by
      cases rest with
      | nil => simp
      | cons d rest =>
        rintro ⟨⟩
        exact notBreak rest ((List.isChain_cons_cons.1 h.paired.2).1 rfl) rfl
    rw [lineBreak]
    · refine ih ⟨h.paired.part (List.suffix_cons c rest).isInfix other, ?_⟩
      rcases List.suffix_cons_iff.1 h.ends with same | inside
      · obtain ⟨-, rfl⟩ := List.cons.inj same
        exact absurd rfl other
      · exact inside
    · exact notBreak
    · exact notFeed

/-- What is set in the place of an import keeps the form of the lines. -/
lemma Crlf.replace {before own after new : Text} (h : Crlf (before ++ own ++ after))
    (closed : own.EndsClosed) (paired : new.Paired) : Crlf (before ++ new ++ after) := by
  have front : before.Paired := h.paired.left.left
  exact (front.append paired).append_crlf (h.right (closed.append_left before))

/-- Taking a type out keeps the form of the lines. -/
lemma Crlf.left {text : Text} (h : text.Crlf) (rule : Rule) : (rule.left text).Crlf := by
  cases first : text.importOf? rule.home with
  | none => exact (Rule.left_of_none first).symm ▸ h
  | some statement =>
    obtain ⟨before, own, after, new, rfl, closed, left, edit⟩ := Rule.exists_left_eq first
    obtain ⟨names, module⟩ := h.paired.of_mem_table (mem_table_of_importOf? first)
    rw [left]
    refine h.replace closed ?_
    rcases edit with rfl | rfl
    · exact paired_of_notMem List.not_mem_nil
    · exact paired_render (fun name mem => names name (List.mem_of_mem_erase mem)) module

/-- Listing a type keeps the form of the lines. -/
lemma Crlf.enlist {text typeName destination : Text} (h : text.Crlf) (paired : typeName.Paired)
    (paired' : destination.Paired) : (text.enlist typeName destination).Crlf := by
  have line : (Import.render ⟨[typeName], destination⟩).Paired :=
    paired_render (by simpa using paired) paired'
  have feed : Paired ['\r', '\n'] := by decide
  rcases enlist_cases text typeName destination with
    same | ⟨statement, before, own, after, first, rfl, closed, eq⟩ | ⟨before, after, rfl, closed, eq⟩ | eq
  · exact same.symm ▸ h
  · obtain ⟨names, module⟩ := h.paired.of_mem_table (mem_table_of_importOf? first)
    rw [eq]
    refine h.replace closed (paired_render (fun name mem => ?_) module)
    rcases List.mem_append.1 mem with mem | mem
    · exact names name mem
    · exact List.mem_singleton.1 mem ▸ paired
  · have behind := h.right closed
    rw [eq, behind.lineBreak_eq]
    exact h.paired.left.append_crlf (feed.append_crlf (line.append_crlf behind))
  · rw [eq, h.lineBreak_eq]
    exact (line.append feed).append_crlf h

/-! ### Texts without carriage returns -/

lemma notMem_lineBreak {text : Text} (h : '\r' ∉ text) : '\r' ∉ text.lineBreak := by
  induction text using lineBreak.induct with
  | case1 => decide
  | case2 => exact absurd List.mem_cons_self h
  | case3 => rw [lineBreak]; decide
  | case4 c rest notBreak notFeed ih =>
    rw [lineBreak]
    · exact ih (mt (List.mem_cons_of_mem c) h)
    · exact notBreak
    · exact notFeed

lemma notMem_render {names : List Text} {module : Text} (h : ∀ name ∈ names, '\r' ∉ name)
    (h' : '\r' ∉ module) : '\r' ∉ Import.render ⟨names, module⟩ := by
  have comma : '\r' ∉ ", ".toList := by decide
  have list := not_mem_joinWith h comma
  have lead : '\r' ∉ Import.keyword ++ [' ', '{', ' '] := by decide
  have middle : '\r' ∉ [' ', '}', ' '] ++ "from".toList ++ [' ', '"'] := by decide
  have tail : '\r' ∉ ['"', ';'] := by decide
  rw [Import.render_eq, List.mem_append, List.mem_append, List.mem_append, List.mem_append]
  simp only [not_or]
  exact ⟨⟨⟨⟨lead, list⟩, middle⟩, h'⟩, tail⟩

lemma notMem_of_mem_table {text : Text} {found : Import} (h : '\r' ∉ text)
    (mem : found ∈ text.table) : (∀ name ∈ found.names, '\r' ∉ name) ∧ '\r' ∉ found.module := by
  obtain ⟨names, quote, -, module⟩ := infix_of_mem_table mem
  refine ⟨fun name listed => mt (fun mem => (names name listed).subset mem) h, ?_⟩
  exact mt (fun mem => module.subset (List.mem_cons_of_mem quote mem)) h

lemma notMem_left {text : Text} (h : '\r' ∉ text) (rule : Rule) : '\r' ∉ rule.left text := by
  cases first : text.importOf? rule.home with
  | none => exact (Rule.left_of_none first).symm ▸ h
  | some statement =>
    obtain ⟨before, own, after, new, rfl, -, left, edit⟩ := Rule.exists_left_eq first
    obtain ⟨names, module⟩ := notMem_of_mem_table h (mem_table_of_importOf? first)
    simp only [List.mem_append, not_or] at h
    simp only [left, List.mem_append, not_or]
    refine ⟨⟨h.1.1, ?_⟩, h.2⟩
    rcases edit with rfl | rfl
    · exact List.not_mem_nil
    · exact notMem_render (fun name mem => names name (List.mem_of_mem_erase mem)) module

lemma notMem_enlist {text typeName destination : Text} (h : '\r' ∉ text) (free : '\r' ∉ typeName)
    (free' : '\r' ∉ destination) : '\r' ∉ text.enlist typeName destination := by
  have line : '\r' ∉ Import.render ⟨[typeName], destination⟩ :=
    notMem_render (by simpa using free) free'
  rcases enlist_cases text typeName destination with
    same | ⟨statement, before, own, after, first, rfl, -, eq⟩ | ⟨before, after, rfl, -, eq⟩ | eq
  · exact same.symm ▸ h
  · obtain ⟨names, module⟩ := notMem_of_mem_table h (mem_table_of_importOf? first)
    have new : ∀ name ∈ statement.names ++ [typeName], '\r' ∉ name := by
      rw [List.forall_mem_append, List.forall_mem_singleton]
      exact ⟨names, free⟩
    simp only [List.mem_append, not_or] at h
    simp only [eq, List.mem_append, not_or]
    exact ⟨⟨h.1.1, notMem_render new module⟩, h.2⟩
  · simp only [List.mem_append, not_or] at h
    simp only [eq, List.mem_append, not_or]
    exact ⟨h.1, notMem_lineBreak h.2, line, h.2⟩
  · simp only [eq, List.mem_append, not_or]
    exact ⟨⟨line, notMem_lineBreak h⟩, h⟩

end Text

namespace Rules

/-- A text of which every line ends with a carriage return and a line feed has that form after a
pass, and a text without carriage returns has none after it, if the destination brings none
along. -/
theorem lineBreaks_rewrite (rules : Rules) (text : Text) :
    ('\n' ∉ rules.destination → text.Crlf → (rules.rewrite text).text.Crlf) ∧
      ('\r' ∉ rules.destination → '\r' ∉ text → '\r' ∉ (rules.rewrite text).text) := by
  constructor
  · intro free crlf
    refine moves_induction (motive := fun new _ => new.Crlf) crlf ?_ (List.append_nil _)
    rintro rule - new _ ⟨statement, first, own, -⟩ crlf
    have mem := Text.mem_table_of_importOf? first
    have paired := (crlf.paired.of_mem_table mem).1 rule.typeName own
    exact (crlf.left rule).enlist paired (Text.paired_of_notMem free)
  · intro free none
    refine moves_induction (motive := fun new _ => '\r' ∉ new) none ?_ (List.append_nil _)
    rintro rule - new _ ⟨statement, first, own, -⟩ none
    have mem := Text.mem_table_of_importOf? first
    have free' := (Text.notMem_of_mem_table none mem).1 rule.typeName own
    exact Text.notMem_enlist (Text.notMem_left none rule) free' free

/-- A comment keeps its line break among the names, and the other line breaks of the list go. -/
theorem lineBreaks_rewrite_commented :
    let list : Text := "import \x7b\n  Order, // a type\n  saveOrder,\n\x7d from ".toList
    let text : Text := "'use client'\n".toList ++ list ++ "'@/utils/orderStorage'\n".toList
    let crlf : Text := text.flatMap fun c => if c = '\n' then ['\r', '\n'] else [c]
    '\n' ∉ standard.destination ∧ crlf.Crlf ∧ (standard.rewrite crlf).moved ≠ [] ∧
      (standard.rewrite crlf).text.Crlf ∧ '\r' ∉ standard.destination ∧ '\r' ∉ text ∧
      (standard.rewrite text).moved ≠ [] ∧ '\r' ∉ (standard.rewrite text).text := by
  intro list text crlf
  have feed : '\n' ∉ standard.destination := by decide
  have single : '\r' ∉ standard.destination := by decide
  have pairs : crlf.Crlf := by decide +kernel
  have none : '\r' ∉ text := by decide +kernel
  exact ⟨feed, pairs, by decide +kernel, (lineBreaks_rewrite standard crlf).1 feed pairs, single,
    none, by decide +kernel, (lineBreaks_rewrite standard text).2 single none⟩

end Rules

end Rehome
