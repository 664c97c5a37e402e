import Rehome.Import.Statement
import Rehome.Proofs.Import.Crossing

/-!
# Boundaries between pieces

A boundary is a place in a text that no import goes across when the text is read. An edit behind a
boundary leaves the pieces before it as they are if the place stays a boundary. Main statements: it
stays one if no statement of the new text straddles it (`Boundary.swap_of_not_straddled`), and it
stays one where one import takes the place of another (`pieces_replace`).
-/

namespace Rehome

namespace Text

/-- The text that pieces make up. -/
def ofPieces (pieces : List Piece) : Text :=
  pieces.flatMap Piece.text

/-- The imports among pieces. -/
def importsIn (pieces : List Piece) : List Import :=
  pieces.filterMap fun
    | .statement _ found => some found
    | .gap _ => none

/-- What a text imports: names and modules, in order. -/
def table (text : Text) : List Import :=
  text.statements.map Statement.toImport

/-- A statement of the text begins before byte position `n` and ends after it. -/
def Straddled (text : Text) (n : Nat) : Prop :=
  ∃ statement ∈ text.statements, statement.start < n ∧ n < statement.stop

@[simp] lemma ofPieces_nil : ofPieces [] = [] := rfl

@[simp] lemma ofPieces_cons (piece : Piece) (rest : List Piece) :
    ofPieces (piece :: rest) = piece.text ++ ofPieces rest := rfl

@[simp] lemma ofPieces_append (front back : List Piece) :
    ofPieces (front ++ back) = ofPieces front ++ ofPieces back :=
  List.flatMap_append

@[simp] lemma ofPieces_pieces (text : Text) : ofPieces text.pieces = text :=
  flatMap_text_pieces text

@[simp] lemma importsIn_nil : importsIn [] = [] := rfl

@[simp] lemma importsIn_gap (c : Char) (rest : List Piece) :
    importsIn (.gap c :: rest) = importsIn rest := rfl

@[simp] lemma importsIn_statement (text : Text) (found : Import) (rest : List Piece) :
    importsIn (.statement text found :: rest) = found :: importsIn rest := rfl

@[simp] lemma importsIn_append (front back : List Piece) :
    importsIn (front ++ back) = importsIn front ++ importsIn back :=
  List.filterMap_append

@[simp] lemma importsIn_map_gap (text : Text) : importsIn (text.map .gap) = [] := by
  induction text with
  | nil => rfl
  | cons c text ih => exact ih

@[simp] lemma ofPieces_map_gap (text : Text) : ofPieces (text.map .gap) = text := by
  induction text with
  | nil => rfl
  | cons c text ih => exact congrArg (c :: ·) ih

lemma byteSize_pos {text : Text} (h : text ≠ []) : 0 < text.byteSize := by
  cases text with
  | nil => exact absurd rfl h
  | cons c rest =>
    have := c.utf8Size_pos
    rw [byteSize_cons]
    omega

/-! ### Statements and pieces -/

lemma map_toImport_statementsFrom (start : Nat) (pieces : List Piece) :
    (statementsFrom start pieces).map Statement.toImport = importsIn pieces := by
  induction pieces generalizing start with
  | nil => rfl
  | cons piece rest ih =>
    cases piece with
    | gap c => exact ih _
    | statement text found => simp [statementsFrom, ih]

lemma table_eq (text : Text) : text.table = importsIn text.pieces :=
  map_toImport_statementsFrom 0 text.pieces

lemma statementsFrom_append (start : Nat) (front back : List Piece) :
    statementsFrom start (front ++ back) =
      statementsFrom start front ++ statementsFrom (start + byteSize (ofPieces front)) back := by
  induction front generalizing start with
  | nil => simp [statementsFrom]
  | cons piece front ih =>
    cases piece with
    | gap c => simp [statementsFrom, ih, Piece.text, Nat.add_assoc]
    | statement text found => simp [statementsFrom, ih, Piece.text, Nat.add_assoc]

/-- A statement stands where the pieces before it end, and covers its piece. -/
lemma exists_of_statementsFrom_eq {start : Nat} {pieces : List Piece} {front back : List Statement}
    {statement : Statement} (h : statementsFrom start pieces = front ++ statement :: back) :
    ∃ before text after, pieces = before ++ .statement text statement.toImport :: after ∧
      front = statementsFrom start before ∧
      statement.start = start + byteSize (ofPieces before) ∧
      statement.stop = statement.start + byteSize text := by
  induction pieces generalizing start front with
  | nil => simp [statementsFrom] at h
  | cons piece rest ih =>
    cases piece with
    | gap c =>
      obtain ⟨before, text, after, rfl, rfl, eq, stop⟩ := ih h
      exact ⟨.gap c :: before, text, after, rfl, rfl, by simp [eq, Piece.text, Nat.add_assoc], stop⟩
    | statement text found =>
      cases front with
      | nil =>
        obtain ⟨rfl, -⟩ := List.cons.inj h
        exact ⟨[], text, rest, rfl, rfl, rfl, rfl⟩
      | cons first front =>
        obtain ⟨rfl, tail⟩ := List.cons.inj h
        obtain ⟨before, own, after, rfl, rfl, eq, stop⟩ := ih tail
        exact ⟨.statement text found :: before, own, after, rfl, rfl,
          by simp [eq, Piece.text, Nat.add_assoc], stop⟩

lemma exists_of_mem_statementsFrom {start : Nat} {pieces : List Piece} {statement : Statement}
    (h : statement ∈ statementsFrom start pieces) :
    ∃ before text after, pieces = before ++ .statement text statement.toImport :: after ∧
      statement.start = start + byteSize (ofPieces before) ∧
      statement.stop = statement.start + byteSize text := by
  obtain ⟨front, back, eq⟩ := List.append_of_mem h
  obtain ⟨before, own, after, pieces, -, place⟩ := exists_of_statementsFrom_eq eq
  exact ⟨before, own, after, pieces, place⟩

lemma exists_of_mem_table {text : Text} {found : Import} (h : found ∈ text.table) :
    ∃ before own after, text.pieces = before ++ .statement own found :: after := by
  obtain ⟨statement, mem, rfl⟩ := List.mem_map.1 h
  obtain ⟨before, own, after, pieces, -⟩ := exists_of_mem_statementsFrom mem
  exact ⟨before, own, after, pieces⟩

/-- The text around a statement among its pieces. -/
lemma eq_of_pieces_eq {text own : Text} {found : Import} {before after : List Piece}
    (h : text.pieces = before ++ .statement own found :: after) :
    text = ofPieces before ++ own ++ ofPieces after := by
  have whole := ofPieces_pieces text
  rw [h, ofPieces_append, ofPieces_cons, Piece.text, ← List.append_assoc] at whole
  exact whole.symm

lemma straddled_iff {text : Text} {n : Nat} :
    text.Straddled n ↔ ∃ before own found after,
      text.pieces = before ++ .statement own found :: after ∧ byteSize (ofPieces before) < n ∧
        n < byteSize (ofPieces before) + byteSize own := by
  constructor
  · rintro ⟨statement, mem, start, stop⟩
    obtain ⟨before, own, after, pieces, at₀, at₁⟩ := exists_of_mem_statementsFrom mem
    rw [Nat.zero_add] at at₀
    exact ⟨before, own, _, after, pieces, at₀ ▸ start, at₀ ▸ at₁ ▸ stop⟩
  · rintro ⟨before, own, found, after, eq, start, stop⟩
    refine ⟨⟨found, byteSize (ofPieces before), byteSize (ofPieces before) + byteSize own⟩, ?_,
      start, stop⟩
    rw [statements, eq, statementsFrom_append, Nat.zero_add]
    simp [statementsFrom]

lemma not_straddled {text : Text} {front back : List Piece} (h : text.pieces = front ++ back) :
    ¬ text.Straddled (byteSize (ofPieces front)) := by
  rw [straddled_iff, h]
  rintro ⟨before, own, found, after, eq, start, stop⟩
  rcases List.append_eq_append_iff.1 eq with ⟨more, rfl, -⟩ | ⟨more, rfl, inside⟩
  · rw [ofPieces_append, byteSize_append] at start
    omega
  · cases more with
    | nil => simp at start
    | cons piece more =>
      obtain ⟨rfl, -⟩ := List.cons.inj inside
      simp only [ofPieces_append, ofPieces_cons, Piece.text, byteSize_append] at stop
      omega

/-- The first import of a module, with the pieces around it. -/
lemma exists_of_importOf?_eq_some {text module : Text} {statement : Statement}
    (h : text.importOf? module = some statement) :
    ∃ before own after, text.pieces = before ++ .statement own statement.toImport :: after ∧
      statement.start = byteSize (ofPieces before) ∧
      statement.stop = statement.start + byteSize own ∧
      statement.module = module ∧ ∀ found ∈ importsIn before, found.module ≠ module := by
  obtain ⟨same, front, back, eq, others⟩ := List.find?_eq_some_iff_append.1 h
  obtain ⟨before, own, after, pieces, rfl, start, stop⟩ := exists_of_statementsFrom_eq eq
  refine ⟨before, own, after, pieces, by simpa using start, stop, by simpa using same, ?_⟩
  intro found mem
  rw [← map_toImport_statementsFrom 0, List.mem_map] at mem
  obtain ⟨other, mem, rfl⟩ := mem
  simpa using others other mem

lemma importOf?_eq_none_iff {text module : Text} :
    text.importOf? module = none ↔ ∀ found ∈ text.table, found.module ≠ module := by
  simp [importOf?, table]

lemma mem_table_of_importOf? {text module : Text} {statement : Statement}
    (first : text.importOf? module = some statement) : statement.toImport ∈ text.table :=
  List.mem_map_of_mem (List.mem_of_find?_eq_some first)

/-! ### Boundaries -/

/-- The text that starts with the pieces `front` is read as these pieces and what `rest` is read
as. -/
def Boundary (front : List Piece) (rest : Text) : Prop :=
  pieces (ofPieces front ++ rest) = front ++ rest.pieces

lemma pieces_gap_iff {c : Char} {text : Text} {rest : List Piece} :
    pieces (c :: text) = .gap c :: rest ↔
      Import.read? (c :: text) = none ∧ text.pieces = rest := by
  constructor
  · intro h
    cases read : Import.read? (c :: text) with
    | none =>
      rw [pieces_of_gap read] at h
      exact ⟨rfl, (List.cons.inj h).2⟩
    | some spelt =>
      rw [pieces_of_read read] at h
      exact nomatch (List.cons.inj h).1
  · rintro ⟨read, rfl⟩
    exact pieces_of_gap read

lemma pieces_statement_iff {own text : Text} {found : Import} {rest : List Piece} :
    pieces (own ++ text) = .statement own found :: rest ↔
      Import.read? (own ++ text) = some ⟨found, own, text⟩ ∧ text.pieces = rest := by
  constructor
  · intro h
    cases read : Import.read? (own ++ text) with
    | none =>
      cases whole : own ++ text with
      | nil => rw [whole, pieces_nil] at h; cases h
      | cons c tail =>
        rw [whole] at read h
        rw [pieces_of_gap read] at h
        exact nomatch (List.cons.inj h).1
    | some spelt =>
      obtain ⟨found', own', text'⟩ := spelt
      rw [pieces_of_read read] at h
      obtain ⟨head, tail⟩ := List.cons.inj h
      obtain ⟨rfl, rfl⟩ := Piece.statement.inj head
      obtain rfl := List.append_cancel_left (Import.read?_append read).1
      exact ⟨rfl, tail⟩
  · rintro ⟨read, rfl⟩
    exact pieces_of_read read

/-- What follows some pieces of a text is read as the pieces that follow them. -/
lemma pieces_ofPieces_of_append {text : Text} {front back : List Piece}
    (h : text.pieces = front ++ back) : pieces (ofPieces back) = back := by
  induction front generalizing text with
  | nil =>
    rw [List.nil_append] at h
    rw [← h, ofPieces_pieces]
  | cons piece front ih =>
    have whole := ofPieces_pieces text
    rw [h, List.cons_append, ofPieces_cons] at whole
    rw [← whole] at h
    cases piece with
    | gap c => exact ih (pieces_gap_iff.1 h).2
    | statement own found => exact ih (pieces_statement_iff.1 h).2

lemma boundary_of_pieces_eq {text : Text} {front back : List Piece}
    (h : text.pieces = front ++ back) : Boundary front (ofPieces back) := by
  rw [Boundary, pieces_ofPieces_of_append h, ← h, ← ofPieces_append, ← h, ofPieces_pieces]

namespace Boundary

lemma nil (rest : Text) : Boundary [] rest := rfl

lemma gap_iff {c : Char} {front : List Piece} {rest : Text} :
    Boundary (.gap c :: front) rest ↔
      Import.read? (c :: (ofPieces front ++ rest)) = none ∧ Boundary front rest :=
  pieces_gap_iff

lemma statement_iff {own : Text} {found : Import} {front : List Piece} {rest : Text} :
    Boundary (.statement own found :: front) rest ↔
      Import.read? (own ++ (ofPieces front ++ rest)) = some ⟨found, own, ofPieces front ++ rest⟩ ∧
        Boundary front rest := by
  rw [Boundary, ofPieces_cons, List.append_assoc, List.cons_append]
  exact pieces_statement_iff

lemma tail {piece : Piece} {front : List Piece} {rest : Text} (h : Boundary (piece :: front) rest) :
    Boundary front rest := by
  cases piece with
  | gap c => exact (gap_iff.1 h).2
  | statement own found => exact (statement_iff.1 h).2

lemma ofPieces_ne_nil {piece : Piece} {front : List Piece} {rest : Text}
    (h : Boundary (piece :: front) rest) : ofPieces (piece :: front) ≠ [] := by
  cases piece with
  | gap c => simp [Piece.text]
  | statement own found =>
    have solid := (Import.read?_append (statement_iff.1 h).1).2
    simp [Piece.text, solid]

lemma length_le {front : List Piece} {rest : Text} {spelt : Spelt} (h : Boundary front rest)
    (solid : front ≠ []) (read : Import.read? (ofPieces front ++ rest) = some spelt) :
    spelt.text.length ≤ (ofPieces front).length := by
  cases front with
  | nil => exact absurd rfl solid
  | cons piece front =>
    cases piece with
    | gap c => exact nomatch (gap_iff.1 h).1.symm.trans read
    | statement own found =>
      rw [ofPieces_cons, List.append_assoc] at read
      cases (statement_iff.1 h).1.symm.trans read
      simp [Piece.text]

/-- The first piece stays when another text is set behind the boundary, unless an import goes on
across it now. -/
lemma pieces_cons {piece : Piece} {front : List Piece} {x y : Text}
    (h : Boundary (piece :: front) x)
    (inside : ∀ spelt, Import.read? (ofPieces (piece :: front) ++ y) = some spelt →
      spelt.text.length ≤ (ofPieces (piece :: front)).length) :
    pieces (ofPieces (piece :: front) ++ y) = piece :: pieces (ofPieces front ++ y) := by
  cases piece with
  | gap c =>
    refine pieces_gap_iff.2 ⟨?_, rfl⟩
    cases read : Import.read? (c :: (ofPieces front ++ y)) with
    | none => exact read
    | some spelt =>
      -- an import that ends in front of the boundary would have been there before
      obtain ⟨other, read'⟩ := Import.read?_isSome_of_length_le read (inside spelt read) x
      exact nomatch (gap_iff.1 h).1.symm.trans read'
  | statement own found =>
    simp only [ofPieces_cons, Piece.text, List.append_assoc] at inside ⊢
    exact pieces_statement_iff.2 ⟨Import.read?_append_swap (statement_iff.1 h).1 inside, rfl⟩

lemma append_right {front back : List Piece} {rest : Text} (h : Boundary (front ++ back) rest) :
    Boundary back rest := by
  induction front with
  | nil => exact h
  | cons piece front ih => exact ih h.tail

lemma append_left {front back : List Piece} {rest : Text} (h : Boundary (front ++ back) rest) :
    Boundary front (ofPieces back ++ rest) := by
  rw [Boundary, h.append_right, ← List.append_assoc, ← List.append_assoc, ← ofPieces_append]
  exact h

lemma snoc {front : List Piece} {piece : Piece} {rest : Text}
    (h : Boundary front (piece.text ++ rest))
    (next : pieces (piece.text ++ rest) = piece :: rest.pieces) :
    Boundary (front ++ [piece]) rest := by
  rw [Boundary, next] at h
  rw [Boundary, ofPieces_append, List.append_assoc, List.append_assoc]
  simpa using h

/-- A boundary stays one when another text is set behind it, unless an import goes on across it
now. -/
lemma swap {front : List Piece} {x y : Text} (h : Boundary front x)
    (inside : ∀ lead back, front = lead ++ back → back ≠ [] →
      ∀ spelt, Import.read? (ofPieces back ++ y) = some spelt →
        spelt.text.length ≤ (ofPieces back).length) : Boundary front y := by
  induction front with
  | nil => exact .nil y
  | cons piece front ih =>
    have tail := ih h.tail fun lead back eq => inside (piece :: lead) back (by rw [eq]; rfl)
    rw [Boundary, h.pieces_cons (inside [] _ rfl (List.cons_ne_nil _ _)), tail, List.cons_append]

/-- An import that goes on across a place behind a boundary straddles it. -/
lemma straddled {front : List Piece} {back rest : Text} {spelt : Spelt}
    (h : Boundary front (back ++ rest)) (solid : back ≠ [])
    (read : Import.read? (back ++ rest) = some spelt) (crosses : back.length < spelt.text.length) :
    Straddled (ofPieces front ++ (back ++ rest)) (byteSize (ofPieces front) + byteSize back) := by
  have whole := (Import.read?_append read).1
  obtain ⟨more, eq⟩ : back <+: spelt.text :=
    List.prefix_of_prefix_length_le (List.prefix_append _ rest) ⟨_, whole.symm⟩ crosses.le
  have filled : more ≠ [] := by
    rintro rfl
    simp [← eq] at crosses
  refine straddled_iff.2 ⟨front, spelt.text, spelt.found, spelt.rest.pieces, ?_, ?_, ?_⟩
  · rw [h, pieces_of_read read]
  · have := byteSize_pos solid
    omega
  · have := byteSize_pos filled
    rw [← eq, byteSize_append]
    omega

/-- A boundary stays one if no statement of the new text straddles it. -/
lemma swap_of_not_straddled {front : List Piece} {x y : Text} (h : Boundary front x)
    (apart : ¬ Straddled (ofPieces front ++ y) (byteSize (ofPieces front))) : Boundary front y := by
  induction front with
  | nil => exact .nil y
  | cons piece front ih =>
    have inside : ∀ spelt, Import.read? (ofPieces (piece :: front) ++ y) = some spelt →
        spelt.text.length ≤ (ofPieces (piece :: front)).length := by
      intro spelt read
      by_contra crosses
      -- what goes on across the boundary straddles it as the first statement of the new text
      have across := (nil _).straddled h.ofPieces_ne_nil read (Nat.lt_of_not_le crosses)
      rw [ofPieces_nil, List.nil_append, byteSize_nil, Nat.zero_add] at across
      exact apart across
    have step := h.pieces_cons inside
    have apart' : ¬ Straddled (ofPieces front ++ y) (byteSize (ofPieces front)) := by
      rw [straddled_iff] at apart ⊢
      rintro ⟨before, own, found, after, eq, start, stop⟩
      refine apart ⟨piece :: before, own, found, after, by rw [step, eq]; rfl, ?_, ?_⟩
      · simp only [ofPieces_cons, byteSize_append]
        omega
      · simp only [ofPieces_cons, byteSize_append]
        omega
    rw [Boundary, step, ih h.tail apart', List.cons_append]

/-- A boundary in front of an import stays one if what is set there begins with the same letter. -/
lemma swap_of_form {front : List Piece} {form : Import.Form} {x y : Text}
    (h : Boundary front (form.text ++ x)) : Boundary front ('i' :: y) := by
  refine h.swap fun lead back eq solid spelt read => ?_
  rw [eq] at h
  have here := h.append_right
  by_contra crosses
  have filled : ofPieces back ≠ [] := by
    cases back with
    | nil => exact absurd rfl solid
    | cons piece back => exact here.ofPieces_ne_nil
  obtain ⟨longer, read', long⟩ :=
    Import.exists_read?_of_crossing form filled read (Nat.lt_of_not_le crosses)
  exact Nat.not_le_of_lt long (here.length_le solid read')

end Boundary

/-- A place in a text is a boundary unless an import goes on across it. -/
lemma exists_boundary {before rest : Text}
    (inside : ∀ front back, before = ofPieces front ++ back → back ≠ [] →
      Boundary front (back ++ rest) → ∀ spelt, Import.read? (back ++ rest) = some spelt →
        spelt.text.length ≤ back.length) :
    ∃ front, ofPieces front = before ∧ Boundary front rest := by
  have reach : ∀ (n : Nat) (front : List Piece) (back : Text), back.length = n →
      before = ofPieces front ++ back → Boundary front (back ++ rest) →
        ∃ front, ofPieces front = before ∧ Boundary front rest := by
    -- on what is left up to the place, of which the next piece takes a part
    intro n
    induction n using Nat.strong_induction_on with
    | _ n ih =>
      intro front back size split boundary
      cases back with
      | nil => exact ⟨front, by simp [split], boundary⟩
      | cons c back =>
        cases read : Import.read? (c :: back ++ rest) with
        | none =>
          refine ih back.length (by simp [← size]) (front ++ [.gap c]) back rfl ?_ ?_
          · simp [split, Piece.text]
          · exact boundary.snoc (pieces_of_gap read)
        | some spelt =>
          have short := inside front (c :: back) split (by simp) boundary spelt read
          obtain ⟨whole, solid⟩ := Import.read?_append read
          obtain ⟨more, eq⟩ : spelt.text <+: c :: back :=
            List.prefix_of_prefix_length_le ⟨_, whole.symm⟩ (List.prefix_append _ rest) short
          have left : spelt.rest = more ++ rest := by
            rw [← eq, List.append_assoc] at whole
            exact (List.append_cancel_left whole).symm
          have next := pieces_of_read read
          rw [← eq, List.append_assoc, left] at next
          have := List.length_pos_iff.2 solid
          refine ih more.length ?_ (front ++ [.statement spelt.text spelt.found]) more rfl ?_ ?_
          · rw [← size, ← eq, List.length_append]
            omega
          · simp [split, Piece.text, ← eq]
          · rw [← eq, List.append_assoc] at boundary
            exact boundary.snoc next
  exact reach before.length [] before rfl rfl (.nil _)

lemma pieces_append_of_notMem {text : Text} (rest : Text) (h : 'i' ∉ text) :
    pieces (text ++ rest) = text.map .gap ++ rest.pieces := by
  induction text with
  | nil => rfl
  | cons c text ih =>
    rw [List.mem_cons, not_or] at h
    have none : Import.read? (c :: (text ++ rest)) = none := by
      cases read : Import.read? (c :: (text ++ rest)) with
      | none => rfl
      | some spelt =>
        obtain ⟨form, behind, whole, -⟩ := Import.exists_form_of_read? read
        exact absurd (List.cons.inj whole).1.symm h.1
    rw [List.cons_append, pieces_of_gap none, ih h.2, List.map_cons, List.cons_append]

/-- A statement among the pieces is read where it stands. -/
lemma read?_of_pieces_eq {text own : Text} {found : Import} {before after : List Piece}
    (h : text.pieces = before ++ .statement own found :: after) :
    Import.read? (own ++ ofPieces after) = some ⟨found, own, ofPieces after⟩ := by
  have here := pieces_ofPieces_of_append h
  simp only [ofPieces_cons, Piece.text] at here
  exact (pieces_statement_iff.1 here).1

lemma writable_of_mem_table {text : Text} {found : Import} (h : found ∈ text.table) :
    found.Writable := by
  obtain ⟨before, own, after, pieces⟩ := exists_of_mem_table h
  exact Import.writable_of_read? (read?_of_pieces_eq pieces)

/-- Where a statement stands, another import can be written in its place. -/
lemma pieces_replace {text own : Text} {found other : Import} {before after : List Piece}
    (h : text.pieces = before ++ .statement own found :: after) (writable : other.Writable) :
    pieces (ofPieces before ++ other.render ++ ofPieces after) =
      before ++ .statement other.render other :: after := by
  have front := boundary_of_pieces_eq h
  have back := pieces_ofPieces_of_append (h.trans (List.append_cons ..))
  obtain ⟨form, behind, whole, -⟩ := Import.exists_form_of_read? (read?_of_pieces_eq h)
  obtain ⟨letters, begins⟩ : ∃ letters, other.render = 'i' :: letters := ⟨_, rfl⟩
  simp only [ofPieces_cons, Piece.text, whole] at front
  have front' : Boundary before (other.render ++ ofPieces after) := by
    rw [begins]
    exact front.swap_of_form
  rw [List.append_assoc, front', pieces_of_read (Import.read?_render_append writable _), back]

/-- A statement can be cut out where no other import goes across the cut then. -/
lemma pieces_remove {text own : Text} {found : Import} {before after : List Piece}
    (h : text.pieces = before ++ .statement own found :: after)
    (apart : ¬ Straddled (ofPieces before ++ ofPieces after) (byteSize (ofPieces before))) :
    pieces (ofPieces before ++ ofPieces after) = before ++ after := by
  have front := (boundary_of_pieces_eq h).swap_of_not_straddled apart
  have back := pieces_ofPieces_of_append (h.trans (List.append_cons ..))
  rw [front, back]

/-! ### Order of statements -/

lemma stop_le_of_mem_statementsFrom {start : Nat} {pieces : List Piece} {statement : Statement}
    (h : statement ∈ statementsFrom start pieces) :
    statement.stop ≤ start + byteSize (ofPieces pieces) := by
  obtain ⟨before, own, after, rfl, at₀, at₁⟩ := exists_of_mem_statementsFrom h
  simp only [ofPieces_append, ofPieces_cons, Piece.text, byteSize_append]
  omega

lemma start_lt_stop {start : Nat} {text : Text} {front back : List Piece} {statement : Statement}
    (pieces : text.pieces = front ++ back) (h : statement ∈ statementsFrom start back) :
    start ≤ statement.start ∧ statement.start < statement.stop := by
  obtain ⟨before, own, after, rfl, at₀, at₁⟩ := exists_of_mem_statementsFrom h
  rw [← List.append_assoc] at pieces
  have solid := byteSize_pos (Import.read?_append (read?_of_pieces_eq pieces)).2
  dsimp only at solid
  omega

lemma start_lt_stop_of_mem {text : Text} {statement : Statement} (h : statement ∈ text.statements) :
    statement.start < statement.stop :=
  (start_lt_stop (List.nil_append _).symm h).2

/-- Statements come in order and do not overlap. -/
lemma pairwise_stop_le {start : Nat} {text : Text} {front back : List Piece}
    (pieces : text.pieces = front ++ back) :
    (statementsFrom start back).Pairwise fun first second => first.stop ≤ second.start := by
  induction back generalizing start front with
  | nil => exact .nil
  | cons piece back ih =>
    have rest := pieces.trans (List.append_cons front piece back)
    cases piece with
    | gap c => exact ih rest
    | statement own found =>
      exact .cons (fun statement mem => (start_lt_stop rest mem).1) (ih rest)

lemma pairwise_statements (text : Text) :
    text.statements.Pairwise fun first second => first.stop ≤ second.start :=
  pairwise_stop_le (List.nil_append _).symm

end Text

end Rehome
