import Mathlib.Data.List.Infix
import Rehome.Proofs.Import.Grammar
import Rehome.Proofs.Import.Tidy

/-!
# Imports broken off

The directive may stand inside an import, and a new import that goes behind it breaks that one off.
If no name and no module has an opening brace, what is left behind the place opens no import any
more, and the names before it join the new one. Main statement: the pieces of the text afterwards
(`Placement.pieces_insert_of_opens`).
-/

namespace Rehome

/-- Neither the module nor a name of the import has an opening brace. -/
def Import.Braceless (found : Import) : Prop :=
  '{' ∉ found.module ∧ ∀ name ∈ found.names, '{' ∉ name

instance (found : Import) : Decidable found.Braceless :=
  inferInstanceAs (Decidable (_ ∧ ∀ name ∈ found.names, _))

namespace Placement

open Text

/-- What is left of an import behind the place where it was broken off: it opens no import, whatever
comes next. -/
structure Inert (scrap : Text) : Prop where
  brace : '{' ∉ scrap
  last : ∃ init z, scrap = init ++ [z] ∧ isBlank z = false ∧ z ∉ Import.keyword

/-- A new import that goes inside another one goes among its names. -/
lemma exists_of_straddled {text : Text} {n : Nat} (point : point? text = some n)
    (inside : text.Straddled n) :
    ∃ front part scrap found back, text.pieces = front ++ .statement (part ++ scrap) found :: back ∧
      Import.Opens part ∧ point? text = some (byteSize (ofPieces front ++ part)) := by
  obtain ⟨front, own, found, back, pieces, start, stop⟩ := straddled_iff.1 inside
  obtain ⟨lead, tail, seam, split, rfl⟩ := exists_seam_of_point? point
  have whole := ofPieces_pieces text
  rw [pieces, ofPieces_append, ofPieces_cons, Piece.text, split] at whole
  rcases append_eq_append_split whole with ⟨part, rfl, rest⟩ | ⟨c, more, eq⟩
  · rcases append_eq_append_split rest with ⟨more, rfl, -⟩ | ⟨c, more, rfl⟩
    · simp only [byteSize_append] at stop
      omega
    · refine ⟨front, part, c :: more, found, back, pieces, ?_, point⟩
      have read := read?_of_pieces_eq pieces
      rw [rest] at read
      have solid : part ≠ [] := by
        rintro rfl
        simp at start
      -- an import that is broken off elsewhere would not go on behind the directive
      by_contra closed
      have short := seam.length_le rfl solid closed id read
      simp only [List.length_append, List.length_cons] at short
      omega
  · rw [eq, byteSize_append] at start
    omega

/-- What an import goes on with behind its names is inert. -/
lemma inert_append {form : Import.Form} {names behind : Text} (brace : '{' ∉ names)
    (free : '{' ∉ form.module) :
    Inert (names ++ (form.middle ++ form.module ++ [form.quote]) ++ behind.closing.1) := by
  have middle : '{' ∉ form.middle := by
    intro mem
    rcases Import.Form.mem_middle mem with eq | blank | letter | eq
    · exact absurd eq (by decide)
    · exact absurd blank (by decide)
    · exact absurd letter (by decide)
    · exact absurd form.isQuote_opening (by rw [← eq]; decide)
  have quote : '{' ≠ form.quote := by
    intro eq
    exact absurd form.isQuote (by rw [← eq]; decide)
  have closing : '{' ∉ behind.closing.1 := by
    intro mem
    exact (mem_closing mem).elim (absurd · (by decide)) (absurd · (by decide))
  constructor
  · simp only [List.mem_append, List.mem_singleton, not_or]
    exact ⟨⟨brace, ⟨middle, free⟩, quote⟩, closing⟩
  · rcases closing_cases behind with eq | ⟨spaces, _, -, -, eq⟩
    · refine ⟨names ++ form.middle ++ form.module, form.quote, by simp [eq], ?_, ?_⟩
      · exact Import.isBlank_of_isQuote form.isQuote
      · intro letter
        exact absurd form.isQuote (by rw [Import.isQuote_of_mem_keyword letter]; decide)
    · refine ⟨names ++ form.middle ++ form.module ++ form.quote :: spaces, ';', by simp [eq], rfl, ?_⟩
      decide

/-- Behind the place where an import is broken off stands an inert text. -/
lemma inert_of_opens {text part scrap : Text} {found : Import} {front back : List Piece}
    (pieces : text.pieces = front ++ .statement (part ++ scrap) found :: back)
    (opens : Import.Opens part) (braceless : found.Braceless) : Inert scrap := by
  have read := read?_of_pieces_eq pieces
  rw [List.append_assoc] at read
  obtain ⟨blanks, list, blank, rfl, brace⟩ := opens
  obtain ⟨form, names, behind, listed, split, same⟩ := exists_form_of_opens blank brace read
  obtain ⟨rfl, -, rest⟩ := Spelt.mk.inj same
  have whole := closing_append behind
  rw [whole, ← rest, ← List.append_assoc, ← List.append_assoc] at split
  obtain rfl := List.append_cancel_right split
  refine inert_append (fun mem => ?_) braceless.1
  -- a brace among the rest of the names would belong to one of them
  have inside : ['{'] <:+: form.list := by
    rw [listed, List.singleton_infix_iff]
    exact List.mem_append_right _ mem
  obtain ⟨name, own, within⟩ :=
    Import.exists_infix_of_infix (by decide) (by decide) (by decide) inside
  exact braceless.2 name own ((List.singleton_infix_iff _ _).1 within)

namespace Inert

variable {scrap : Text}

/-- No import begins in an inert text. -/
lemma quiet (h : Inert scrap) (rest : Text) : Parting.Quiet scrap rest := by
  intro lead c more eq form behind whole
  obtain ⟨init, z, last, solid, foreign⟩ := h.last
  have brace := h.brace
  obtain ⟨body, z', ends⟩ := (List.eq_nil_or_concat' (c :: more)).resolve_left (List.cons_ne_nil _ _)
  rw [eq, ends, List.mem_append, List.mem_append, not_or, not_or] at brace
  rw [eq, ends, ← List.append_assoc] at last
  obtain ⟨-, same⟩ := List.append_inj' last rfl
  cases same
  -- the brace of an import would stand in the text, or the last letter of that before the brace
  rw [ends, List.append_assoc, Import.Form.text, List.append_assoc, List.append_assoc,
    List.append_assoc, List.append_assoc] at whole
  rcases append_eq_append_cons whole.symm with ⟨_, head⟩ | ⟨_, rfl, -⟩
  · have mem : z ∈ form.head := by simp [head]
    rcases Import.Form.mem_head mem with letter | blank | rfl
    · exact foreign letter
    · simp [solid] at blank
    · simp at brace
  · exact brace.2.1 (by simp [Import.Form.head])

/-- A text with a character that is neither a blank nor an opening brace bars the word. -/
lemma barred {text : Text} {z : Char} (brace : '{' ∉ text ++ [z]) (solid : isBlank z = false)
    (rest : List Piece) : Barred (text.map .gap ++ .gap z :: rest) := by
  induction text with
  | nil =>
    rw [List.map_nil, List.nil_append, Barred, if_neg (by simp [solid])]
    rintro rfl
    simp at brace
  | cons c text ih =>
    rw [List.cons_append, List.mem_cons, not_or] at brace
    rw [List.map_cons, List.cons_append, Barred]
    split
    · exact ih brace.2
    · exact Ne.symm brace.1

/-- In front of what is guarded an inert text is guarded. -/
lemma guarded (h : Inert scrap) {rest : List Piece} (right : Guarded rest) :
    Guarded (scrap.map .gap ++ rest) := by
  have brace := h.brace
  obtain ⟨init, z, rfl, solid, foreign⟩ := h.last
  intro before after eq
  rw [List.map_append, List.append_assoc, List.map_singleton, List.singleton_append] at eq
  rcases word_append_cons (gap_notMem_keyword foreign) (by simp [Import.keyword]) eq with
    ⟨more, inside, rfl⟩ | ⟨more, inside⟩
  · obtain ⟨lead, body, rfl, -, rfl⟩ := List.map_eq_append_iff.1 inside
    rw [List.append_assoc, List.mem_append, not_or] at brace
    exact barred brace.2 solid rest
  · exact right more after inside

end Inert

/-- The last name of a list that goes on with the opening of an import takes that along; the names
before it stay. -/
lemma names_swallowed {form : Import.Form} {feed : Text} (list others : Text) (broke : ',' ∉ feed)
    (single : ',' ∉ form.list) :
    (∃ name ∈ Import.namesIn (list ++ (feed ++ form.head ++ form.list)), '{' ∈ name) ∧
      ∀ name ∈ Import.namesIn (list ++ (feed ++ form.head ++ form.list)),
        '{' ∈ name ∨ name ∈ Import.namesIn (list ++ others) := by
  have inside : ['{'] <:+: feed ++ form.head ++ form.list := by
    rw [List.singleton_infix_iff]
    simp [Import.Form.head]
  have comma : ',' ∉ feed ++ form.head ++ form.list := by
    rw [List.mem_append, List.mem_append]
    rintro ((mem | head) | mem)
    · exact broke mem
    · rcases Import.Form.mem_head head with letter | blank | eq
      · exact absurd letter (by decide)
      · exact absurd blank (by decide)
      · exact absurd eq (by decide)
    · exact single mem
  refine ⟨?_, fun name mem => ?_⟩
  · obtain ⟨name, mem, within⟩ := Import.exists_infix_of_infix (by decide) (by decide) (by decide)
      (inside.trans (List.suffix_append list _).isInfix)
    exact ⟨name, mem, (List.singleton_infix_iff _ _).1 within⟩
  · rw [← List.singleton_infix_iff]
    exact Import.mem_namesIn_append (by decide) (by decide) comma inside others mem

/-- A new import that goes among the names of another one ends that, and takes the names before it
along; the last of them swallows the opening of the new import. -/
lemma pieces_insert_of_opens {text part scrap typeName destination : Text} {found : Import}
    {front back : List Piece}
    (pieces : text.pieces = front ++ .statement (part ++ scrap) found :: back)
    (opens : Import.Opens part) (inert : Inert scrap)
    (point : point? text = some (byteSize (ofPieces front ++ part)))
    (isName : Import.IsName typeName) (isModule : Import.IsModule destination) :
    ∃ own names, Text.pieces (insert text (Import.render ⟨[typeName], destination⟩)) =
        front ++ .statement own ⟨names, destination⟩ :: (scrap.map .gap ++ back) ∧
      (∃ name ∈ names, '{' ∈ name) ∧ ∀ name ∈ names, '{' ∈ name ∨ name ∈ found.names := by
  have whole : text = (ofPieces front ++ part) ++ (scrap ++ ofPieces back) := by
    have whole := ofPieces_pieces text
    rw [pieces] at whole
    simp [← whole, Piece.text]
  have here := boundary_of_pieces_eq pieces
  have next := pieces_ofPieces_of_append (pieces.trans (List.append_cons ..))
  have broken := read?_of_pieces_eq pieces
  obtain ⟨first, _, begins, -⟩ := Import.exists_form_of_read? broken
  rw [ofPieces_cons, Piece.text, begins] at here
  obtain ⟨blanks, list, blank, rfl, brace⟩ := opens
  rw [List.append_assoc] at broken
  obtain ⟨_, others, _, listed, -, same⟩ := exists_form_of_opens blank brace broken
  have old : found.names = Import.namesIn (list ++ others) := by
    rw [(Spelt.mk.inj same).1, Import.Form.found, listed]
  obtain ⟨form, isForm, render, own⟩ :=
    Import.exists_form_of_writable (Import.writable_singleton isName isModule)
  obtain ⟨feed, line⟩ : ∃ feed, (scrap ++ ofPieces back).lineBreak = feed := ⟨_, rfl⟩
  have free : '}' ∉ list ++ feed := by
    rcases lineBreak_eq (scrap ++ ofPieces back) with eq | eq <;> simp [← line, eq, brace]
  have spelt := form.text_closer blank free
  have read := (form.closer blank free).read?_append (';' :: (scrap ++ ofPieces back))
  have closes : closing (';' :: (scrap ++ ofPieces back)) = ([';'], scrap ++ ofPieces back) :=
    closing_append_cons (List.forall_mem_nil _)
  rw [closes] at read
  have names : (form.closer blank free).list = list ++ (feed ++ form.head ++ form.list) := by
    simp [Import.Form.closer]
  have broke : ',' ∉ feed := by
    rcases lineBreak_eq (scrap ++ ofPieces back) with eq | eq <;> simp [← line, eq]
  have single : ',' ∉ form.list := by
    rw [own]
    simpa [joinWith] using isName.2.2.1
  refine ⟨(form.closer blank free).text ++ [';'], Import.namesIn (form.closer blank free).list, ?_,
    ?_⟩
  · have module : form.module = destination := congrArg Import.module isForm
    have split : insert text (Import.render ⟨[typeName], destination⟩) = ofPieces front ++
        ((form.closer blank free).text ++ ';' :: (scrap ++ ofPieces back)) := by
      rw [whole] at point ⊢
      rw [insert_of_point? point, line, spelt, render]
      simp
    have front' :
        Boundary front ((form.closer blank free).text ++ ';' :: (scrap ++ ofPieces back)) :=
      here.swap_of_form
    rw [split, front', pieces_of_read read, (inert.quiet _).pieces_append, next, ← module]
    rfl
  · rw [names, old]
    exact names_swallowed list others broke single

end Placement

end Rehome
