import Mathlib.Data.List.Basic
import Rehome.Import.Placement
import Rehome.Proofs.Import.Boundary

/-!
# Insertion after the directive

The directive ends with a quote and perhaps a semicolon, so that an import which goes across the
seam behind it can only have been broken off among its names. Main statements: where that is
excluded, the seam is a boundary whatever stands behind it (`Seam.exists_boundary`), and the pieces
of the text with an import inserted are known (`pieces_insert`).
-/

namespace Rehome

namespace Import

/-- An import that is broken off among its names. -/
def Opens (text : Text) : Prop :=
  ∃ blanks list, Text.IsBlanks blanks ∧ text = keyword ++ blanks ++ '{' :: list ∧ '}' ∉ list

/-- A form that is cut behind a quote or a semicolon is broken off among its names or in its
module. -/
lemma Form.opens_of_cut {form : Form} {init : Text} {c z : Char} (h : Cut form (init ++ [z]) c)
    (stop : Text.isQuote z ∨ z = ';') :
    Opens (init ++ [z]) ∨ ∃ part after,
      init ++ [z] = form.head ++ form.list ++ form.middle ++ part ∧
        form.module ++ [form.quote] = part ++ c :: after := by
  have stops : z = '\'' ∨ z = '"' ∨ z = ';' := by
    rcases stop with stop | rfl
    · simp only [Text.isQuote, Bool.or_eq_true, decide_eq_true_eq] at stop
      exact stop.imp_right .inl
    · simp
  generalize whole : init ++ [z] = before at h
  cases h with
  | head eq =>
    have mem : z ∈ form.head := by simp [eq, ← whole]
    rcases stops with rfl | rfl | rfl <;>
      rcases mem_head mem with mem | mem | mem <;> exact absurd mem (by decide)
  | @list part _ after eq =>
    refine .inl ⟨form.blanks, part, form.isBlanks, by simp [head], fun mem => ?_⟩
    exact form.brace_notMem (by simp [eq, mem])
  | @middle part _ after eq =>
    -- the cut lies before the closing brace, for no quote and no semicolon stands behind it
    rcases List.eq_nil_or_concat' part with rfl | ⟨lead, last, rfl⟩
    · exact .inl ⟨form.blanks, form.list, form.isBlanks, by simp [head], form.brace_notMem⟩
    · rw [← List.append_assoc] at whole
      obtain ⟨-, same⟩ := List.append_inj' whole rfl
      cases same
      have mem := mem_part_of_middle eq z (by simp)
      rcases stops with rfl | rfl | rfl <;>
        rcases mem with mem | mem | mem <;> exact absurd mem (by decide)
  | module eq => exact .inr ⟨_, _, rfl, eq⟩

end Import

namespace Placement

open Text

/-- The text before the seam ends with the directive and what closes it. -/
def Seam (before after : Text) : Prop :=
  ∃ front spelling rest : Text, spelling ∈ spellings ∧
    before = front ++ spelling ++ rest.closing.1 ∧ after = rest.closing.2

lemma closingSize_eq (text : Text) : closingSize text = byteSize text.closing.1 := by
  have whole := spaces_append_afterSpaces text
  rw [closingSize]
  split
  case h_1 rest found =>
    have closes : text.closing = (text.spaces ++ [';'], rest) := by
      simp only [closing, found]
    have size := congrArg byteSize whole
    rw [closes]
    simp only [found, byteSize_append, byteSize_cons, byteSize_nil] at size ⊢
    omega
  case h_2 none =>
    have closes : text.closing = ([], text) := by
      rw [closing]
      split
      case h_1 rest found => exact absurd found (none rest)
      case h_2 => rfl
    rw [closes]
    rfl

lemma exists_seam_of_point? {text : Text} {n : Nat} (h : point? text = some n) :
    ∃ before after, Seam before after ∧ text = before ++ after ∧ n = byteSize before := by
  obtain ⟨⟨start, stop⟩, found, rfl⟩ := Option.map_eq_some_iff.1 h
  obtain ⟨spelling, mem, eq⟩ := List.exists_of_findSome?_eq_some found
  obtain ⟨n, at₀, eq⟩ := Option.map_eq_some_iff.1 eq
  obtain ⟨rfl, rfl⟩ := Prod.mk.inj eq
  obtain ⟨front, rest, rfl, rfl⟩ := find?_eq_some at₀
  refine ⟨front ++ spelling ++ rest.closing.1, rest.closing.2,
    ⟨front, spelling, rest, mem, rfl, rfl⟩, ?_, ?_⟩
  · rw [List.append_assoc (front ++ spelling), ← closing_append]
  · dsimp only
    rw [← byteSize_append, dropBytes_byteSize_append, closingSize_eq, ← byteSize_append]

lemma insert_of_point? {before after : Text} (h : point? (before ++ after) = some (byteSize before))
    (line : Text) :
    insert (before ++ after) line = before ++ (after.lineBreak ++ (line ++ after)) := by
  simp [insert, h]

lemma lineBreak_eq (text : Text) : text.lineBreak = ['\n'] ∨ text.lineBreak = ['\r', '\n'] := by
  induction text using lineBreak.induct with
  | case1 => exact .inl rfl
  | case2 => exact .inr rfl
  | case3 => exact .inl rfl
  | case4 c rest notBreak notFeed ih =>
    rw [lineBreak]
    · exact ih
    · exact notBreak
    · exact notFeed

namespace Seam

variable {before after : Text}

/-- A seam stands behind the last letter of the directive, a quote and what closes it. -/
lemma ends (h : Seam before after) : ∃ front quote tail, before = front ++ 't' :: quote :: tail ∧
    isQuote quote ∧ (tail = [] ∧ after.closing = ([], after) ∨
      ∃ spaces, (∀ c ∈ spaces, isSpace c) ∧ tail = spaces ++ [';']) := by
  obtain ⟨front, spelling, rest, mem, rfl, rfl⟩ := h
  obtain ⟨start, quote, rfl, isQuote⟩ :
      ∃ start quote, spelling = start ++ ['t', quote] ∧ isQuote quote := by
    simp only [spellings, List.mem_cons, List.not_mem_nil, or_false] at mem
    rcases mem with rfl | rfl
    · exact ⟨"'use clien".toList, '\'', rfl, rfl⟩
    · exact ⟨"\"use clien".toList, '"', rfl, rfl⟩
  refine ⟨front ++ start, quote, rest.closing.1, by simp, isQuote, ?_⟩
  rcases closing_cases rest with eq | ⟨spaces, rest, space, -, eq⟩
  · exact .inl ⟨by rw [eq], by rw [eq, eq]⟩
  · exact .inr ⟨spaces, space, by rw [eq]⟩

lemma exists_last (h : Seam before after) {front back : Text} (split : before = front ++ back)
    (solid : back ≠ []) : ∃ init c, back = init ++ [c] ∧ (isQuote c ∨ c = ';') := by
  obtain ⟨init, c, rfl⟩ := (List.eq_nil_or_concat' back).resolve_left solid
  refine ⟨init, c, rfl, ?_⟩
  obtain ⟨lead, quote, tail, ends, isQuote, ⟨rfl, -⟩ | ⟨spaces, -, rfl⟩⟩ := h.ends
  · have same : front ++ init ++ [c] = lead ++ ['t'] ++ [quote] := by simp [← split, ends]
    obtain ⟨-, eq⟩ := List.append_inj' same rfl
    cases eq
    exact .inl isQuote
  · have same : front ++ init ++ [c] = (lead ++ 't' :: quote :: spaces) ++ [';'] := by
      simp [← split, ends]
    obtain ⟨-, eq⟩ := List.append_inj' same rfl
    cases eq
    exact .inr rfl

lemma not_isQuote_of_isSpace {c : Char} (h : isSpace c) : isQuote c = false := by
  simp only [isSpace, Bool.or_eq_true, decide_eq_true_eq] at h
  rcases h with rfl | rfl <;> rfl

/-- Before a seam the last quote follows a letter. -/
lemma letter_of_last_quote (h : Seam before after) {front back : Text} {c quote : Char}
    (split : before = front ++ c :: quote :: back) (isQuote : Text.isQuote quote)
    (free : ∀ d ∈ back, Text.isQuote d = false) :
    c = 't' ∧ (back = [] ∧ after.closing = ([], after) ∨ ';' ∈ back) := by
  obtain ⟨lead, quote', tail, ends, isQuote', tails⟩ := h.ends
  have free' : ∀ d ∈ tail, Text.isQuote d = false := by
    rintro d mem
    rcases tails with ⟨rfl, -⟩ | ⟨spaces, space, rfl⟩
    · cases mem
    · rcases List.mem_append.1 mem with mem | mem
      · exact not_isQuote_of_isSpace (space d mem)
      · cases List.mem_singleton.1 mem
        rfl
  have same : front ++ [c] ++ quote :: back = lead ++ ['t'] ++ quote' :: tail := by
    simp [← split, ← ends]
  obtain ⟨letters, rfl⟩ := last_quote_unique same isQuote isQuote' free free'
  refine ⟨(List.append_inj' letters rfl).2 |> List.cons.inj |>.1, ?_⟩
  rcases tails with tails | ⟨spaces, -, rfl⟩
  · exact .inl tails
  · exact .inr (by simp)

lemma length_closing_le (h : Seam before after) {front rest more : Text} {form : Import.Form}
    (split : before = front ++ (form.text ++ more))
    (quiet : after.closing = ([], after) → rest.closing = ([], rest)) :
    (closing (more ++ rest)).1.length ≤ more.length := by
  rcases closing_cases (more ++ rest) with eq | ⟨spaces, left, space, whole, eq⟩
  · simp [eq]
  · rw [eq]
    rcases append_eq_append_cons whole with ⟨_, rfl⟩ | ⟨gone, rfl, rfl⟩
    · simp
    -- otherwise the closing semicolon of the form would stand behind the seam
    · obtain ⟨module, c, last⟩ := (List.eq_nil_or_concat' form.module).resolve_left form.isModule.1
      have split' : before = (front ++ form.head ++ form.list ++ form.middle ++ module) ++
          c :: form.quote :: more := by
        rw [split, Import.Form.text, last]
        simp
      obtain ⟨-, ⟨-, none⟩ | semicolon⟩ := h.letter_of_last_quote split' form.isQuote
        fun c mem => not_isQuote_of_isSpace (space c (by simp [mem]))
      · have shut := quiet none
        rw [closing_append_cons fun c mem => space c (by simp [mem])] at shut
        simp at shut
      · exact absurd (space ';' (by simp [semicolon])) (by decide)

/-- An import does not go on across a seam unless it is broken off among its names there. -/
lemma length_le (h : Seam before after) {front back rest : Text} (split : before = front ++ back)
    (solid : back ≠ []) (closed : ¬ Import.Opens back) {spelt : Spelt}
    (quiet : after.closing = ([], after) → rest.closing = ([], rest))
    (read : Import.read? (back ++ rest) = some spelt) : spelt.text.length ≤ back.length := by
  obtain ⟨form, behind, whole, rfl⟩ := Import.exists_form_of_read? read
  rcases append_eq_append_split whole.symm with ⟨more, rfl, rfl⟩ | ⟨c, more, eq⟩
  · have := h.length_closing_le split quiet
    simp only [List.length_append]
    omega
  · exfalso
    obtain ⟨init, z, rfl, stop⟩ := h.exists_last split solid
    rcases Import.Form.opens_of_cut (Import.Form.cut eq) stop with opens | ⟨part, after, cut, eq⟩
    · exact closed opens
    · obtain ⟨blanks, blank, behind⟩ :=
        (List.eq_nil_or_concat' form.behind).resolve_left form.isBlanks_behind.1
      have split' : before = (front ++ form.head ++ form.list ++ '}' :: form.before ++
          "from".toList ++ blanks) ++ blank :: form.opening :: part := by
        rw [split, cut, Import.Form.middle, behind]
        simp
      -- the module's quote would be the directive's, but that follows a letter
      obtain ⟨rfl, -⟩ := h.letter_of_last_quote split' form.isQuote_opening
        (Import.Form.isQuote_of_mem_part eq)
      have letter := form.isBlanks_behind.2 't' (by simp [behind])
      exact absurd letter (by decide)

/-- A seam is a boundary, whatever stands behind it, if no import is broken off there. -/
lemma exists_boundary (h : Seam before after)
    (closed : ∀ front back, before = ofPieces front ++ back → Boundary front (back ++ after) →
      ¬ Import.Opens back) :
    ∃ front, ofPieces front = before ∧ Boundary front after ∧
      ∀ rest : Text, rest.closing = ([], rest) → Boundary front rest := by
  obtain ⟨front, rfl, here⟩ :=
    Text.exists_boundary fun front back split solid boundary spelt read =>
      h.length_le split solid (closed front back split boundary) id read
  refine ⟨front, rfl, here, fun rest quiet => ?_⟩
  refine here.swap fun lead back eq solid spelt read => ?_
  rw [eq] at here
  cases filled : ofPieces back with
  | nil =>
    cases back with
    | nil => exact absurd rfl solid
    | cons piece back => exact absurd filled here.append_right.ofPieces_ne_nil
  | cons c more =>
    rw [← filled]
    refine h.length_le (by rw [eq, ofPieces_append]) (by simp [filled]) ?_
      (fun _ => quiet) read
    exact closed lead _ (by rw [eq, ofPieces_append]) here.append_left

end Seam

/-- No import of the text is broken off among its names where a new import goes. -/
def Unbroken (text : Text) : Prop :=
  ∀ (front : List Piece) (back after : Text), text = ofPieces front ++ back ++ after →
    Seam (ofPieces front ++ back) after → Boundary front (back ++ after) →
      point? text = some (byteSize (ofPieces front ++ back)) → ¬ Import.Opens back

/-- Where no import is broken off, a new import is inserted between two pieces. -/
lemma pieces_insert {text : Text} {n : Nat} {found : Import} (point : point? text = some n)
    (unbroken : Unbroken text) (writable : found.Writable) :
    ∃ front back, text.pieces = front ++ back ∧ byteSize (ofPieces front) = n ∧
      Seam (ofPieces front) (ofPieces back) ∧
      pieces (insert text found.render) = front ++ ((ofPieces back).lineBreak.map .gap ++
        .statement found.render found :: back) := by
  obtain ⟨before, after, seam, rfl, rfl⟩ := exists_seam_of_point? point
  obtain ⟨front, rfl, here, anywhere⟩ := seam.exists_boundary fun front back split boundary =>
    unbroken front back after (by rw [split]) (split ▸ seam) boundary (split ▸ point)
  have quiet : closing (after.lineBreak ++ (found.render ++ after)) =
      ([], after.lineBreak ++ (found.render ++ after)) := by
    rcases lineBreak_eq after with eq | eq <;> rw [eq] <;> rfl
  have breaks : 'i' ∉ after.lineBreak := by
    rcases lineBreak_eq after with eq | eq <;> rw [eq] <;> decide
  refine ⟨front, after.pieces, here, rfl, by rwa [ofPieces_pieces], ?_⟩
  rw [insert_of_point? point, anywhere _ quiet, pieces_append_of_notMem _ breaks,
    pieces_of_read (Import.read?_render_append writable after), ofPieces_pieces]

lemma pieces_insert_of_none {text : Text} {found : Import} (point : point? text = none)
    (writable : found.Writable) :
    pieces (insert text found.render) =
      .statement found.render found :: (text.lineBreak.map .gap ++ text.pieces) := by
  have breaks : 'i' ∉ text.lineBreak := by
    rcases lineBreak_eq text with eq | eq <;> rw [eq] <;> decide
  rw [insert, point, List.append_assoc, pieces_of_read (Import.read?_render_append writable _),
    pieces_append_of_notMem _ breaks]

end Placement

end Rehome
