import Rehome.Proofs.Import.Insertion

/-!
# Tidy texts

In an orderly text nothing outside the imports could open one, and an import of a home ends its
line. In a tidy text besides no name holds the directive. Main statements: a statement of a home can
be cut out of an orderly text (`Orderly.boundary`), and in a tidy text no import is broken off where
a new one goes (`Tidy.unbroken`).
-/

namespace Rehome

open Text

/-- The first character that is no blank comes before the next import, and it is no opening
brace. -/
def Barred : List Piece → Prop
  | [] => False
  | .statement _ _ :: _ => False
  | .gap c :: rest => if isBlank c then Barred rest else c ≠ '{'

/-- The text ends, or a carriage return or a line feed follows. -/
def EndsLine : List Piece → Prop
  | [] => True
  | .statement _ _ :: _ => False
  | .gap c :: _ => c = '\r' ∨ c = '\n'

/-- Wherever the word `import` stands outside the imports, something bars it from opening one. -/
def Guarded (pieces : List Piece) : Prop :=
  ∀ before after, pieces = before ++ Import.keyword.map .gap ++ after → Barred after

/-- The imports of the modules `homes` end their lines. -/
def Lined (homes : List Text) (pieces : List Piece) : Prop :=
  ∀ before own found after, pieces = before ++ .statement own found :: after →
    found.module ∈ homes → EndsLine after

/-- No name of the import holds a spelling of the client directive. -/
def Import.Plain (found : Import) : Prop :=
  ∀ name ∈ found.names, ∀ spelling ∈ Placement.spellings, ¬ spelling <:+: name

/-- A text, by its pieces, in which rules with these homes can take types out of imports without
touching anything else. -/
structure Orderly (homes : List Text) (pieces : List Piece) : Prop where
  guarded : Guarded pieces
  lined : Lined homes pieces

/-- A text, by its pieces, in which rules with these homes can move types without touching anything
else. -/
structure Tidy (homes : List Text) (pieces : List Piece) : Prop where
  guarded : Guarded pieces
  lined : Lined homes pieces
  plain : ∀ found ∈ importsIn pieces, found.Plain

instance decidableBarred : DecidablePred Barred
  | [] => inferInstanceAs (Decidable False)
  | .statement _ _ :: _ => inferInstanceAs (Decidable False)
  | .gap c :: rest =>
    have := decidableBarred rest
    inferInstanceAs (Decidable (if isBlank c then Barred rest else c ≠ '{'))

instance decidableEndsLine : DecidablePred EndsLine
  | [] => inferInstanceAs (Decidable True)
  | .statement _ _ :: _ => inferInstanceAs (Decidable False)
  | .gap c :: _ => inferInstanceAs (Decidable (c = '\r' ∨ c = '\n'))

instance (found : Import) : Decidable found.Plain :=
  inferInstanceAs (Decidable (∀ name ∈ found.names, ∀ spelling ∈ Placement.spellings,
    ¬ spelling <:+: name))

/-! ### What follows the word -/

lemma Barred.append {front : List Piece} (h : Barred front) (back : List Piece) :
    Barred (front ++ back) := by
  induction front with
  | nil => exact h.elim
  | cons piece front ih =>
    cases piece with
    | statement own found => exact h.elim
    | gap c =>
      rw [Barred] at h
      rw [List.cons_append, Barred]
      by_cases blank : isBlank c
      · rw [if_pos blank] at h ⊢
        exact ih h
      · rw [if_neg blank] at h ⊢
        exact h

/-- What bars the word stands before the next import. -/
lemma Barred.of_append_statement {front back : List Piece} {own : Text} {found : Import}
    (h : Barred (front ++ .statement own found :: back)) : Barred front := by
  induction front with
  | nil => exact h
  | cons piece front ih =>
    cases piece with
    | statement own found => exact h
    | gap c =>
      rw [List.cons_append, Barred] at h
      rw [Barred]
      by_cases blank : isBlank c
      · rw [if_pos blank] at h ⊢
        exact ih h
      · rw [if_neg blank] at h ⊢
        exact h

/-- What bars the word stands in the first part, or that is nothing but blanks. -/
lemma Barred.of_append {front back : List Piece} (h : Barred (front ++ back)) :
    Barred front ∨ ∃ blanks : Text, (∀ c ∈ blanks, isBlank c) ∧ front = blanks.map .gap := by
  induction front with
  | nil => exact .inr ⟨[], by simp, rfl⟩
  | cons piece front ih =>
    cases piece with
    | statement own found => exact .inl h
    | gap c =>
      rw [List.cons_append, Barred] at h
      rw [Barred]
      by_cases blank : isBlank c
      · rw [if_pos blank] at h ⊢
        rcases ih h with barred | ⟨blanks, white, rfl⟩
        · exact .inl barred
        · exact .inr ⟨c :: blanks, List.forall_mem_cons.2 ⟨blank, white⟩, rfl⟩
      · rw [if_neg blank] at h ⊢
        exact .inl h

lemma barred_blanks_iff {blanks : Text} (blank : ∀ c ∈ blanks, isBlank c) {rest : List Piece} :
    Barred (blanks.map .gap ++ rest) ↔ Barred rest := by
  induction blanks with
  | nil => rfl
  | cons c blanks ih =>
    rw [List.forall_mem_cons] at blank
    rw [List.map_cons, List.cons_append, Barred, if_pos blank.1, ih blank.2]

/-! ### Guarded pieces -/

/-- A word stands on one side of an element that is no letter of it. -/
lemma word_append_cons {α : Type} {before word after front back : List α} {a : α}
    (foreign : a ∉ word) (solid : word ≠ []) (h : front ++ a :: back = before ++ word ++ after) :
    (∃ more, front = before ++ word ++ more ∧ after = more ++ a :: back) ∨
      ∃ more, back = more ++ word ++ after := by
  rw [List.append_assoc] at h
  rcases List.append_eq_append_iff.1 h with ⟨more, rfl, eq⟩ | ⟨more, rfl, within⟩
  · cases more with
    | nil =>
      obtain ⟨b, rest, rfl⟩ := List.exists_cons_of_ne_nil solid
      obtain ⟨rfl, -⟩ := List.cons.inj eq
      exact absurd List.mem_cons_self foreign
    | cons other more =>
      obtain ⟨rfl, rfl⟩ := List.cons.inj eq
      exact .inr ⟨more, by simp⟩
  · rcases List.append_eq_append_iff.1 within with ⟨rest, rfl, eq⟩ | ⟨rest, rfl, eq⟩
    · exact .inl ⟨rest, by simp, eq⟩
    · cases rest with
      | nil => exact .inl ⟨[], by simp, eq.symm⟩
      | cons other rest =>
        obtain ⟨rfl, -⟩ := List.cons.inj eq
        exact absurd (by simp) foreign

lemma gap_notMem_keyword {c : Char} (foreign : c ∉ Import.keyword) :
    Piece.gap c ∉ Import.keyword.map Piece.gap := by
  rw [List.mem_map]
  rintro ⟨d, mem, same⟩
  cases same
  exact foreign mem

namespace Guarded

lemma nil : Guarded [] := by
  intro before after eq
  have short := congrArg List.length eq
  simp [Import.keyword] at short

lemma append_right {front back : List Piece} (h : Guarded (front ++ back)) : Guarded back :=
  fun before after eq => h (front ++ before) after (by simp [eq])

lemma tail {piece : Piece} {rest : List Piece} (h : Guarded (piece :: rest)) : Guarded rest :=
  @append_right [piece] rest h

lemma cons_iff {piece : Piece} {rest : List Piece} :
    Guarded (piece :: rest) ↔
      (Import.keyword.map .gap <+: piece :: rest →
        Barred ((piece :: rest).drop Import.keyword.length)) ∧ Guarded rest := by
  have word : (Import.keyword.map Piece.gap).length = Import.keyword.length := List.length_map _
  constructor
  · intro h
    refine ⟨?_, h.tail⟩
    rintro ⟨after, eq⟩
    rw [← eq, ← word, List.drop_left]
    exact h [] after (by simp [eq])
  · rintro ⟨first, h⟩ before after eq
    cases before with
    | nil =>
      rw [List.nil_append] at eq
      rw [eq, ← word, List.drop_left] at first
      exact first ⟨after, rfl⟩
    | cons other before =>
      obtain ⟨-, rfl⟩ := List.cons.inj eq
      exact h before after rfl

instance decidable : DecidablePred Guarded
  | [] => isTrue nil
  | _ :: rest =>
    have := decidable rest
    decidable_of_iff _ cons_iff.symm

/-- An import parts what is guarded before it from what is guarded behind it. -/
lemma statement_iff {front back : List Piece} {own : Text} {found : Import} :
    Guarded (front ++ .statement own found :: back) ↔ Guarded front ∧ Guarded back := by
  have foreign : Piece.statement own found ∉ Import.keyword.map Piece.gap := by simp
  constructor
  · intro h
    refine ⟨fun before after eq => ?_, ?_⟩
    · exact (h before (after ++ .statement own found :: back)
        (by rw [eq, List.append_assoc])).of_append_statement
    · rw [List.append_cons] at h
      exact h.append_right
  · rintro ⟨left, right⟩ before after eq
    rcases word_append_cons foreign (by simp [Import.keyword]) eq with
      ⟨more, inside, rfl⟩ | ⟨more, inside⟩
    · exact (left before more inside).append _
    · exact right more after inside

lemma append_gap {front back : List Piece} {c : Char} (foreign : c ∉ Import.keyword)
    (left : Guarded front) (right : Guarded back) : Guarded (front ++ .gap c :: back) := by
  intro before after eq
  rcases word_append_cons (gap_notMem_keyword foreign) (by simp [Import.keyword]) eq with
    ⟨more, inside, rfl⟩ | ⟨more, inside⟩
  · exact (left before more inside).append _
  · exact right more after inside

lemma cons_statement_iff {own : Text} {found : Import} {rest : List Piece} :
    Guarded (.statement own found :: rest) ↔ Guarded rest := by
  rw [← List.nil_append (Piece.statement own found :: rest), statement_iff]
  exact and_iff_right nil

lemma append_lineBreak {front back : List Piece} (text : Text) (left : Guarded front)
    (right : Guarded back) : Guarded (front ++ (text.lineBreak.map .gap ++ back)) := by
  have feed := @append_gap [] back '\n' (by decide) .nil right
  rcases Placement.lineBreak_eq text with eq | eq
  · rw [eq]
    exact append_gap (by decide) left right
  · rw [eq]
    exact append_gap (by decide) left feed

/-- Before a seam nothing of the word is left open. -/
lemma of_seam {front back : List Piece} (h : Guarded (front ++ back)) {after : Text}
    (seam : Placement.Seam (ofPieces front) after) : Guarded front := by
  intro before behind eq
  have barred := h before (behind ++ back) (by rw [eq, List.append_assoc])
  rcases barred.of_append with barred | ⟨blanks, blank, rfl⟩
  · exact barred
  · exfalso
    have split : ofPieces front = ofPieces before ++ (Import.keyword ++ blanks) := by
      rw [eq, ofPieces_append, ofPieces_append, ofPieces_map_gap, ofPieces_map_gap,
        List.append_assoc]
    obtain ⟨init, c, last, stop⟩ := seam.exists_last split (by simp [Import.keyword])
    have mem : c ∈ Import.keyword ++ blanks := by simp [last]
    rcases List.mem_append.1 mem with mem | mem
    · rcases stop with stop | rfl
      · simp [Import.isQuote_of_mem_keyword mem] at stop
      · exact absurd mem (by decide)
    · have white := blank c mem
      rcases stop with stop | rfl
      · simp [Import.isBlank_of_isQuote stop] at white
      · exact absurd white (by decide)

end Guarded

/-! ### Lined pieces -/

namespace Lined

variable {homes : List Text}

lemma nil : Lined homes [] := by
  intro before own found after eq
  exact absurd eq.symm (by simp)

lemma append_right {front back : List Piece} (h : Lined homes (front ++ back)) :
    Lined homes back :=
  fun before own found after eq => h (front ++ before) own found after (by simp [eq])

lemma cons_gap_iff {c : Char} {rest : List Piece} :
    Lined homes (.gap c :: rest) ↔ Lined homes rest := by
  constructor
  · intro h
    exact @append_right _ [_] _ h
  · intro h before own found after eq
    cases before with
    | nil => cases eq
    | cons piece before =>
      obtain ⟨rfl, rfl⟩ := List.cons.inj eq
      exact h before own found after rfl

lemma cons_statement_iff {own : Text} {found : Import} {rest : List Piece} :
    Lined homes (.statement own found :: rest) ↔
      (found.module ∈ homes → EndsLine rest) ∧ Lined homes rest := by
  constructor
  · intro h
    exact ⟨h [] own found rest rfl, @append_right _ [_] _ h⟩
  · rintro ⟨first, h⟩ before own found after eq
    cases before with
    | nil =>
      cases eq
      exact first
    | cons piece before =>
      obtain ⟨rfl, rfl⟩ := List.cons.inj eq
      exact h before own found after rfl

instance decidable : DecidablePred (Lined homes)
  | [] => isTrue nil
  | .gap _ :: rest =>
    have := decidable rest
    decidable_of_iff _ cons_gap_iff.symm
  | .statement _ _ :: rest =>
    have := decidable rest
    decidable_of_iff _ cons_statement_iff.symm

/-- Other pieces can follow if they end a line where those before them did. -/
lemma swap {front x y : List Piece} (h : Lined homes (front ++ x)) (keeps : EndsLine x → EndsLine y)
    (right : Lined homes y) : Lined homes (front ++ y) := by
  induction front with
  | nil => exact right
  | cons piece front ih =>
    cases piece with
    | gap c =>
      rw [List.cons_append, cons_gap_iff] at h ⊢
      exact ih h
    | statement own found =>
      rw [List.cons_append, cons_statement_iff] at h ⊢
      refine ⟨fun mem => ?_, ih h.2⟩
      have ends := h.1 mem
      cases front with
      | nil => exact keeps ends
      | cons piece front => cases piece <;> exact ends

lemma gaps_append (text : Text) {rest : List Piece} (h : Lined homes rest) :
    Lined homes (text.map .gap ++ rest) := by
  induction text with
  | nil => exact h
  | cons c text ih => exact cons_gap_iff.2 ih

end Lined

lemma endsLine_lineBreak_append (text : Text) (rest : List Piece) :
    EndsLine (text.lineBreak.map .gap ++ rest) := by
  rcases Placement.lineBreak_eq text with eq | eq
  · rw [eq]
    exact .inr rfl
  · rw [eq]
    exact .inl rfl

/-! ### No import opens -/

/-- Where no import begins, the word and the blanks behind it are gaps. -/
lemma pieces_keyword {blanks tail : Text} (blank : ∀ c ∈ blanks, isBlank c)
    (none : Import.read? (Import.keyword ++ blanks ++ tail) = none) :
    pieces (Import.keyword ++ blanks ++ tail) =
      Import.keyword.map .gap ++ (blanks.map .gap ++ tail.pieces) := by
  have free : 'i' ∉ "mport".toList ++ blanks := by
    rw [List.mem_append, not_or]
    exact ⟨by decide, fun mem => absurd (blank _ mem) (by decide)⟩
  have first : pieces (Import.keyword ++ blanks ++ tail) =
      .gap 'i' :: pieces ("mport".toList ++ blanks ++ tail) := pieces_of_gap none
  rw [first, pieces_append_of_notMem tail free, List.map_append, List.append_assoc]
  rfl

/-- The word with a brace behind it is the beginning of an import. -/
lemma Guarded.read?_ne_none {front : List Piece} {blanks rest : Text}
    (blank : ∀ c ∈ blanks, isBlank c)
    (h : Guarded (front ++ pieces (Import.keyword ++ blanks ++ '{' :: rest))) :
    Import.read? (Import.keyword ++ blanks ++ '{' :: rest) ≠ none := by
  intro none
  rw [pieces_keyword blank none, ← List.append_assoc] at h
  have barred := (barred_blanks_iff blank).1 (h _ _ rfl)
  have brace : pieces ('{' :: rest) = .gap '{' :: rest.pieces :=
    @pieces_append_of_notMem ['{'] rest (by decide)
  rw [brace, Barred, if_neg (by decide)] at barred
  exact barred rfl

lemma EndsLine.eq_or_eq {pieces : List Piece} {c : Char} {rest : Text} (h : EndsLine pieces)
    (begins : ofPieces pieces = c :: rest) : c = '\r' ∨ c = '\n' := by
  cases pieces with
  | nil => cases begins
  | cons piece pieces =>
    cases piece with
    | statement own found => exact h.elim
    | gap d =>
      obtain ⟨rfl, -⟩ := List.cons.inj begins
      exact h

lemma length_closing_le_of_endsLine {before : Text} {after : List Piece} (h : EndsLine after) :
    (closing (before ++ ofPieces after)).1.length ≤ before.length := by
  cases after with
  | nil =>
    have whole := congrArg List.length (closing_append (before ++ ofPieces []))
    simp only [ofPieces_nil, List.append_nil, List.length_append] at whole ⊢
    omega
  | cons piece after =>
    cases piece with
    | statement own found => exact h.elim
    | gap c =>
      rcases h with rfl | rfl
      · exact length_closing_le rfl (by decide)
      · exact length_closing_le rfl (by decide)

/-- A line end cuts the head of an import behind the word, among the blanks. -/
lemma exists_of_head_eq {form : Import.Form} {before more : Text} {c : Char}
    (feed : c = '\r' ∨ c = '\n') (h : form.head = before ++ c :: more) :
    ∃ blanks : Text, (∀ d ∈ blanks, isBlank d) ∧ before = Import.keyword ++ blanks := by
  rw [Import.Form.head, List.append_assoc] at h
  rcases append_eq_append_cons h with ⟨letters, eq⟩ | ⟨blanks, rfl, eq⟩
  · have mem : c ∈ Import.keyword := by simp [eq]
    rcases feed with rfl | rfl <;> exact absurd mem (by decide)
  · refine ⟨blanks, ?_, rfl⟩
    rcases append_eq_append_cons eq with ⟨rest, run⟩ | ⟨rest, rfl, brace⟩
    · intro d mem
      exact form.isBlanks.2 d (by simp [run, mem])
    · have mem : c ∈ ['{'] := by simp [brace]
      rcases feed with rfl | rfl <;> exact absurd mem (by decide)

/-- No import goes across the place where an import was that ended its line. -/
lemma Guarded.length_le {back after : List Piece} {own : Text} {found : Import} {spelt : Spelt}
    (h : Guarded (back ++ .statement own found :: after)) (ends : EndsLine after)
    (here : Boundary back (own ++ ofPieces after))
    (next : pieces (own ++ ofPieces after) = .statement own found :: after) (solid : back ≠ [])
    (read : Import.read? (ofPieces back ++ ofPieces after) = some spelt) :
    spelt.text.length ≤ (ofPieces back).length := by
  have whole : pieces (ofPieces back ++ (own ++ ofPieces after)) =
      back ++ .statement own found :: after := by
    rw [here, next]
  cases back with
  | nil => exact absurd rfl solid
  | cons piece back =>
    cases piece with
    | statement own' found' =>
      -- the same import as before, but what closes it may have changed
      obtain ⟨form, rest, split, same⟩ :=
        Import.exists_form_of_read? (Boundary.statement_iff.1 here).1
      obtain ⟨rfl, rfl, -⟩ := Spelt.mk.inj same
      have read' := form.read?_append (rest.closing.1 ++ ofPieces back ++ ofPieces after)
      rw [List.append_assoc, ← List.append_assoc form.text] at read'
      simp only [ofPieces_cons, Piece.text, List.append_assoc] at read read' ⊢
      cases read'.symm.trans read
      have := @length_closing_le_of_endsLine (rest.closing.1 ++ ofPieces back) after ends
      simp only [List.length_append, List.append_assoc] at this ⊢
      omega
    | gap c =>
      exfalso
      -- no import began there, so that its first letters stand barred or in front of the old one
      have none := (Boundary.gap_iff.1 here).1
      obtain ⟨form, behind, split, rfl⟩ := Import.exists_form_of_read? read
      simp only [Import.Form.text, List.append_assoc] at split
      rcases append_eq_append_split split.symm with ⟨more, eq, -⟩ | ⟨d, more, eq⟩
      · have begins : ofPieces (.gap c :: back) ++ (own ++ ofPieces after) =
            Import.keyword ++ form.blanks ++ '{' :: (more ++ (own ++ ofPieces after)) := by
          rw [eq, Import.Form.head]
          simp
        rw [← whole, begins] at h
        exact @Guarded.read?_ne_none [] _ _ form.isBlanks.2 h (begins ▸ none)
      · rw [eq, List.append_assoc] at split
        have feed := ends.eq_or_eq (List.append_cancel_left split)
        obtain ⟨blanks, blank, word⟩ := exists_of_head_eq feed eq
        have begins : ofPieces (.gap c :: back) ++ (own ++ ofPieces after) =
            Import.keyword ++ blanks ++ (own ++ ofPieces after) := by
          rw [word]
        rw [← whole, begins, pieces_keyword blank (begins ▸ none), next] at h
        exact (barred_blanks_iff blank).1 (h [] _ rfl)

/-- A list of names that a seam breaks off holds the directive. -/
lemma exists_spelling_infix {front list after : Text}
    (seam : Placement.Seam (front ++ '{' :: list) after) :
    ∃ spelling ∈ Placement.spellings, spelling <:+: list := by
  obtain ⟨lead, spelling, rest, mem, split, -⟩ := seam
  refine ⟨spelling, mem, ?_⟩
  have brace : '{' ∉ spelling ++ rest.closing.1 := by
    rw [List.mem_append, not_or]
    constructor
    · have free : ∀ spelling ∈ Placement.spellings, '{' ∉ spelling := by decide
      exact free spelling mem
    · intro mem
      rcases mem_closing mem with space | same
      · exact absurd space (by decide)
      · exact absurd same (by decide)
  rw [List.append_assoc] at split
  rcases append_eq_append_cons split.symm with ⟨more, eq⟩ | ⟨more, rfl, eq⟩
  · have tail : list = more ++ (spelling ++ rest.closing.1) := by
      rw [eq, List.append_assoc] at split
      exact (List.cons.inj (List.append_cancel_left split)).2
    exact ⟨more, rest.closing.1, by rw [tail, List.append_assoc]⟩
  · exact absurd (by simp [eq]) brace

/-- Two runs of blanks before a brace are the same. -/
lemma blanks_unique {blanks blanks' rest rest' : Text} (blank : IsBlanks blanks)
    (blank' : IsBlanks blanks') (h : blanks ++ '{' :: rest = blanks' ++ '{' :: rest') :
    rest = rest' := by
  have read := blanks?_append_cons blank (c := '{') rfl rest
  rw [h, blanks?_append_cons blank' rfl rest'] at read
  cases read
  rfl

/-- An import that goes on behind a broken list of names has a longer one. -/
lemma exists_form_of_opens {blanks list rest : Text} {spelt : Spelt} (blank : IsBlanks blanks)
    (brace : '}' ∉ list)
    (read : Import.read? (Import.keyword ++ blanks ++ '{' :: list ++ rest) = some spelt) :
    ∃ form : Import.Form, ∃ more behind, form.list = list ++ more ∧
      rest = more ++ (form.middle ++ form.module ++ [form.quote] ++ behind) ∧
      spelt = ⟨form.found, form.text ++ behind.closing.1, behind.closing.2⟩ := by
  obtain ⟨form, behind, split, same⟩ := Import.exists_form_of_read? read
  have names : list ++ rest = form.list ++ (form.middle ++ form.module ++ [form.quote] ++
      behind) := by
    simp only [Import.Form.text, Import.Form.head, List.append_assoc] at split
    refine blanks_unique blank form.isBlanks ?_
    simpa using List.append_cancel_left split
  have whole := names
  simp only [Import.Form.middle, List.cons_append] at names
  rcases append_eq_append_cons names with ⟨more, eq⟩ | ⟨more, eq, -⟩
  · exact absurd (by simp [eq]) brace
  · rw [eq, List.append_assoc] at whole
    exact ⟨form, more, behind, eq, List.append_cancel_left whole, same⟩

/-! ### Edits of orderly pieces -/

variable {homes : List Text} {before after front back : List Piece} {text own new : Text}
  {found other : Import}

namespace Orderly

/-- An import of a home can be cut out, for no other goes across the cut. -/
lemma boundary (h : Orderly homes text.pieces)
    (pieces : text.pieces = before ++ .statement own found :: after)
    (home : found.module ∈ homes) : Boundary before (ofPieces after) := by
  have here := boundary_of_pieces_eq pieces
  have next := pieces_ofPieces_of_append pieces
  have ends := h.lined before own found after pieces home
  refine here.swap fun lead back eq solid spelt read => ?_
  have guarded := h.guarded
  rw [pieces, eq, List.append_assoc] at guarded
  rw [eq] at here
  exact guarded.append_right.length_le ends here.append_right next solid read

/-- An import can take the place of one of the same module. -/
lemma replace (h : Orderly homes (before ++ .statement own found :: after))
    (same : other.module = found.module) :
    Orderly homes (before ++ .statement new other :: after) := by
  constructor
  · rw [Guarded.statement_iff]
    exact Guarded.statement_iff.1 h.guarded
  · refine h.lined.swap nofun ?_
    have right := h.lined.append_right
    rw [Lined.cons_statement_iff] at right ⊢
    rwa [same]

/-- An import of a home can go. -/
lemma remove (h : Orderly homes (before ++ .statement own found :: after))
    (home : found.module ∈ homes) : Orderly homes (before ++ after) := by
  obtain ⟨left, right⟩ := Guarded.statement_iff.1 h.guarded
  obtain ⟨ends, lined⟩ := Lined.cons_statement_iff.1 h.lined.append_right
  refine ⟨?_, h.lined.swap nofun lined⟩
  cases after with
  | nil => rwa [List.append_nil]
  | cons piece after =>
    cases piece with
    | statement own found => exact Guarded.statement_iff.2 ⟨left, right.tail⟩
    | gap c =>
      have foreign : c ∉ Import.keyword := by
        rcases ends home with rfl | rfl <;> decide
      exact left.append_gap foreign right.tail

/-- An import of no home can be set on a line of its own. -/
lemma insert (h : Orderly homes (front ++ back)) (left : Guarded front) (text : Text)
    (away : other.module ∉ homes) :
    Orderly homes (front ++ (text.lineBreak.map .gap ++ .statement new other :: back)) := by
  have lined : Lined homes (.statement new other :: back) :=
    Lined.cons_statement_iff.2 ⟨fun home => absurd home away, h.lined.append_right⟩
  have right : Guarded (.statement new other :: back) :=
    Guarded.cons_statement_iff.2 h.guarded.append_right
  refine ⟨left.append_lineBreak text right, ?_⟩
  exact h.lined.swap (fun _ => endsLine_lineBreak_append text _) (lined.gaps_append _)

/-- An import of no home can be set on the first line. -/
lemma insert_first (h : Orderly homes back) (text : Text) (away : other.module ∉ homes) :
    Orderly homes (.statement new other :: (text.lineBreak.map .gap ++ back)) := by
  constructor
  · refine Guarded.cons_statement_iff.2 ?_
    exact Guarded.nil.append_lineBreak text h.guarded
  · rw [Lined.cons_statement_iff]
    exact ⟨fun home => absurd home away, h.lined.gaps_append _⟩

/-- A list of names that breaks off belongs to an import that goes on. -/
lemma exists_read?_of_opens {rest : Text} (h : Orderly homes text.pieces)
    (split : text = ofPieces front ++ own ++ rest) (here : Boundary front (own ++ rest))
    (opens : Import.Opens own) : ∃ spelt, Import.read? (own ++ rest) = some spelt := by
  obtain ⟨blanks, list, blank, rfl, -⟩ := opens
  have pieces :
      text.pieces = front ++ (Import.keyword ++ blanks ++ '{' :: list ++ rest).pieces := by
    rw [split, List.append_assoc (ofPieces front), here]
  have guarded := h.guarded
  rw [pieces, List.append_assoc, List.cons_append] at guarded
  rw [List.append_assoc, List.cons_append]
  exact Option.ne_none_iff_exists'.1 (guarded.read?_ne_none blank.2)

/-- Where a new import goes inside no other one, none is broken off. -/
lemma unbroken (h : Orderly homes text.pieces)
    (apart : ∀ n, Placement.point? text = some n → ¬ text.Straddled n) :
    Placement.Unbroken text := by
  rw [Placement.Unbroken]
  intro front back rest whole _ here point opens
  obtain ⟨spelt, read⟩ := h.exists_read?_of_opens whole here opens
  have pieces : text.pieces = front ++ .statement spelt.text spelt.found :: spelt.rest.pieces := by
    rw [whole, List.append_assoc, here, pieces_of_read read]
  refine apart _ point (straddled_iff.2 ⟨front, _, _, _, pieces, ?_, ?_⟩)
  · obtain ⟨blanks, list, -, rfl, -⟩ := opens
    have solid : 0 < byteSize (Import.keyword ++ blanks ++ '{' :: list) := byteSize_pos (by simp)
    rw [byteSize_append]
    omega
  -- the list of names that is broken off there goes on in the import
  · obtain ⟨blanks, list, blank, rfl, brace⟩ := opens
    obtain ⟨form, more, behind, -, split, rfl⟩ := exists_form_of_opens blank brace read
    have whole := congrArg byteSize (Import.read?_append read).1
    have size := congrArg byteSize split
    have closing := congrArg byteSize (closing_append behind)
    have quote : 0 < byteSize [form.quote] := byteSize_pos (by simp)
    simp only [byteSize_append] at whole size closing ⊢
    omega

end Orderly

/-! ### Edits of tidy pieces -/

namespace Tidy

lemma orderly {pieces : List Piece} (h : Tidy homes pieces) : Orderly homes pieces :=
  ⟨h.guarded, h.lined⟩

/-- No import is broken off where a new one goes. -/
lemma unbroken (h : Tidy homes text.pieces) : Placement.Unbroken text := by
  rw [Placement.Unbroken]
  rintro front back after whole seam here - opens
  obtain ⟨spelt, read⟩ := h.orderly.exists_read?_of_opens whole here opens
  have plain : spelt.found.Plain := by
    refine h.plain _ ?_
    rw [whole, List.append_assoc, here, pieces_of_read read]
    simp
  -- the list goes on behind the seam, so that the directive stands in one of the names
  obtain ⟨blanks, list, blank, rfl, brace⟩ := opens
  obtain ⟨form, more, behind, begins, -, rfl⟩ := exists_form_of_opens blank brace read
  rw [← List.append_assoc] at seam
  obtain ⟨spelling, mem, inside⟩ := exists_spelling_infix seam
  have word : ∀ spelling ∈ Placement.spellings,
      spelling ≠ [] ∧ spelling.trim = spelling ∧ ',' ∉ spelling := by decide
  obtain ⟨solid, trimmed, comma⟩ := word spelling mem
  have within : spelling <:+: form.list := inside.trans ⟨[], more, begins.symm⟩
  obtain ⟨name, listed, held⟩ := Import.exists_infix_of_infix solid trimmed comma within
  exact plain name listed spelling mem held

lemma iff_and {pieces : List Piece} : Tidy homes pieces ↔
    Guarded pieces ∧ Lined homes pieces ∧ ∀ found ∈ importsIn pieces, found.Plain :=
  ⟨fun h => ⟨h.guarded, h.lined, h.plain⟩, fun h => ⟨h.1, h.2.1, h.2.2⟩⟩

instance : DecidablePred (Tidy homes) :=
  fun _ => decidable_of_iff _ iff_and.symm

end Tidy

/-- Orderly pieces are tidy if their imports are plain. -/
lemma Orderly.tidy {pieces : List Piece} (h : Orderly homes pieces)
    (plain : ∀ found ∈ importsIn pieces, found.Plain) : Tidy homes pieces :=
  ⟨h.guarded, h.lined, plain⟩

end Rehome
