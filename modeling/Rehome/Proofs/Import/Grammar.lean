import Rehome.Proofs.Import.Boundary

/-!
# The grammar of imports

Which imports a text holds can be told without reading it. An import is spelt by seven parts around
the fixed words, and by the semicolon behind them if there is one. A text is parted into gaps and
imports so that no import begins in a gap. Main statements: there is one way to part a text, and its
statements are the imports of that (`Text.exists_parting_iff`), and an import is read back from its
rendering exactly if it can be written, as every import of a text can (`Import.statements_render`).
-/

namespace Rehome

/-- `name` is `part` without the blanks around it. -/
def Text.Trims (part name : Text) : Prop :=
  ∃ before after, part = before ++ name ++ after ∧ (∀ c ∈ before ++ after, isBlank c) ∧
    (∀ c ∈ name.head?, ¬ isBlank c) ∧ ∀ c ∈ name.getLast?, ¬ isBlank c

namespace Import

/-- A list in braces is made of parts with commas between them. Every part that is more than blanks
gives a name. -/
inductive Lists : Text → List Text → Prop where
  | last {part name} : ',' ∉ part → part.Trims name →
    Lists part (if name = [] then [] else [name])
  | more {part name rest names} : ',' ∉ part → part.Trims name → Lists rest names →
    Lists (part ++ ',' :: rest) (if name = [] then names else name :: names)

/-- What closes an import in front of `rest`: a semicolon with the spaces and tabs before it, or
nothing if none follows. -/
inductive Closes : Text → Text → Prop where
  | semicolon {spaces rest} : (∀ c ∈ spaces, Text.isSpace c) → Closes (spaces ++ [';']) rest
  | nothing {rest} :
    (∀ spaces more, (∀ c ∈ spaces, Text.isSpace c) → rest ≠ spaces ++ ';' :: more) →
    Closes [] rest

/-- The import is spelt as `text` where `rest` follows. -/
def Spells (found : Import) (text rest : Text) : Prop :=
  ∃ form : Form, ∃ tail, text = form.text ++ tail ∧ Closes tail rest ∧
    Lists form.list found.names ∧ found.module = form.module

end Import

/-- A text in parts: a gap, and then an import as it is spelt there with more parts behind it, or
nothing more. -/
inductive Parting where
  | last (gap : Text)
  | next (gap spelling : Text) (found : Import) (more : Parting)

namespace Parting

/-- The text that the parts make up. -/
def text : Parting → Text
  | last gap => gap
  | next gap spelling _ more => gap ++ spelling ++ more.text

/-- The imports with the byte positions that they cover in a text that begins at `start`. -/
def statementsFrom (start : Nat) : Parting → List Statement
  | last _ => []
  | next gap spelling found more =>
    let first := start + gap.byteSize
    ⟨found, first, first + spelling.byteSize⟩ :: more.statementsFrom (first + spelling.byteSize)

/-- In front of `rest` no import begins in the gap, not even one that goes on behind it. -/
def Quiet (gap rest : Text) : Prop :=
  ∀ lead c more, gap = lead ++ c :: more →
    ∀ (form : Import.Form) (behind : Text), c :: more ++ rest ≠ form.text ++ behind

/-- Every import is spelt in front of what follows it, and none begins elsewhere. -/
def Valid : Parting → Prop
  | last gap => Quiet gap []
  | next gap spelling found more =>
    Quiet gap (spelling ++ more.text) ∧ found.Spells spelling more.text ∧ more.Valid

/-- A character more in the first gap. -/
def cons (c : Char) : Parting → Parting
  | last gap => last (c :: gap)
  | next gap spelling found more => next (c :: gap) spelling found more

/-- The parting of pieces. -/
def ofPieces : List Piece → Parting
  | [] => last []
  | .gap c :: rest => cons c (ofPieces rest)
  | .statement spelling found :: rest => next [] spelling found (ofPieces rest)

end Parting

/-! ### Names and their list -/

namespace Text

lemma trimStart_eq_self_iff {text : Text} :
    text.trimStart = text ↔ ∀ c ∈ text.head?, ¬ isBlank c := by
  cases text with
  | nil => simp [trimStart]
  | cons c rest =>
    rw [trimStart_cons_eq_self_iff, List.head?_cons]
    simp

/-- There is one way to take the blanks away. -/
lemma trims_iff {part name : Text} : part.Trims name ↔ name = part.trim := by
  have solid : ∀ name : Text, name.trim = name ↔
      (∀ c ∈ name.head?, ¬ isBlank c) ∧ ∀ c ∈ name.getLast?, ¬ isBlank c := by
    intro name
    have back := @trimStart_eq_self_iff name.reverse
    rw [List.head?_reverse] at back
    rw [trim_eq_self_iff, trimStart_eq_self_iff, back]
  constructor
  · rintro ⟨before, after, rfl, blank, ends⟩
    rw [List.forall_mem_append] at blank
    have front := List.all_eq_true.2 blank.1
    have back := List.all_eq_true.2 blank.2
    exact (trim_pad ((solid name).2 ends) front back).symm
  · rintro rfl
    obtain ⟨before, after, split, front, back⟩ := part.trim_split
    refine ⟨before, after, split, ?_, (solid _).1 part.trim_trim⟩
    rw [List.forall_mem_append]
    exact ⟨List.all_eq_true.1 front, List.all_eq_true.1 back⟩

end Text

namespace Import

/-- The names of a list are those that are read from it. -/
lemma lists_iff {list : Text} {names : List Text} : Lists list names ↔ names = namesIn list := by
  constructor
  · intro h
    induction h with
    | last comma trims =>
      cases Text.trims_iff.1 trims
      exact (namesIn_of_not_mem comma).symm
    | more comma trims _ ih =>
      cases Text.trims_iff.1 trims
      cases ih
      exact (namesIn_append comma _).symm
  · rintro rfl
    induction list using list_induction with
    | last part comma =>
      rw [namesIn_of_not_mem comma]
      exact .last comma (Text.trims_iff.2 rfl)
    | more part rest comma ih =>
      rw [namesIn_append comma]
      exact .more comma (Text.trims_iff.2 rfl) ih

/-! ### Spelt imports -/

lemma closes_iff {tail rest : Text} :
    Closes tail rest ↔ Text.closing (tail ++ rest) = (tail, rest) := by
  constructor
  · intro h
    cases h with
    | semicolon space =>
      rw [List.append_assoc]
      exact Text.closing_append_cons space
    | nothing none =>
      rcases Text.closing_cases rest with eq | ⟨spaces, more, space, whole, -⟩
      · exact eq
      · exact absurd whole (none spaces more space)
  · intro h
    rcases Text.closing_cases (tail ++ rest) with eq | ⟨spaces, more, space, -, eq⟩
    · obtain ⟨rfl, -⟩ := Prod.mk.inj (h.symm.trans eq)
      refine .nothing fun spaces more space whole => ?_
      rw [whole, List.nil_append, Text.closing_append_cons space] at h
      exact absurd (congrArg Prod.fst h) (by simp)
    · obtain ⟨rfl, -⟩ := Prod.mk.inj (h.symm.trans eq)
      exact .semicolon space

/-- A text begins with an import exactly if it is spelt there. -/
lemma read?_eq_some_iff {text own rest : Text} {found : Import} :
    read? text = some ⟨found, own, rest⟩ ↔ text = own ++ rest ∧ found.Spells own rest := by
  constructor
  · intro read
    obtain ⟨form, behind, whole, same⟩ := exists_form_of_read? read
    obtain ⟨rfl, rfl, rfl⟩ := Spelt.mk.inj same
    have split := Text.closing_append behind
    refine ⟨?_, form, behind.closing.1, rfl, ?_, lists_iff.2 rfl, rfl⟩
    · rw [List.append_assoc, ← split]
      exact whole
    · rw [closes_iff, ← split]
  · rintro ⟨rfl, form, tail, rfl, closes, lists, module⟩
    have same : form.found = found := by
      obtain ⟨names, _⟩ := found
      cases lists_iff.1 lists
      cases module
      rfl
    rw [List.append_assoc, form.read?_append, closes_iff.1 closes, same]

/-- No form stands where no import is read. -/
lemma read?_eq_none_iff {text : Text} :
    read? text = none ↔ ∀ (form : Form) (behind : Text), text ≠ form.text ++ behind := by
  constructor
  · rintro none form behind rfl
    rw [form.read?_append] at none
    cases none
  · intro none
    cases read : read? text with
    | none => rfl
    | some spelt =>
      obtain ⟨form, behind, whole, -⟩ := exists_form_of_read? read
      exact absurd whole (none form behind)

end Import

/-! ### Partings -/

namespace Parting

lemma quiet_cons_iff {c : Char} {gap rest : Text} :
    Quiet (c :: gap) rest ↔ Import.read? (c :: gap ++ rest) = none ∧ Quiet gap rest := by
  rw [Import.read?_eq_none_iff]
  constructor
  · intro h
    exact ⟨h [] c gap rfl, fun lead d more eq => h (c :: lead) d more (by rw [eq]; rfl)⟩
  · rintro ⟨first, h⟩ lead d more eq
    cases lead with
    | nil =>
      cases eq
      exact first
    | cons e lead =>
      obtain ⟨-, rfl⟩ := List.cons.inj eq
      exact h lead d more rfl

/-- The characters of a gap belong to no import. -/
lemma Quiet.pieces_append {gap rest : Text} (h : Quiet gap rest) :
    Text.pieces (gap ++ rest) = gap.map .gap ++ rest.pieces := by
  induction gap with
  | nil => rfl
  | cons c gap ih =>
    obtain ⟨none, h⟩ := quiet_cons_iff.1 h
    rw [List.cons_append] at none ⊢
    rw [Text.pieces_of_gap none, ih h, List.map_cons, List.cons_append]

@[simp] lemma text_cons (c : Char) (parting : Parting) :
    (cons c parting).text = c :: parting.text := by
  cases parting <;> rfl

@[simp] lemma text_ofPieces (pieces : List Piece) : (ofPieces pieces).text = Text.ofPieces pieces := by
  induction pieces with
  | nil => rfl
  | cons piece rest ih =>
    cases piece with
    | gap c => simp [ofPieces, ih, Piece.text]
    | statement own found => simp [ofPieces, text, ih, Piece.text]

lemma statementsFrom_cons (start : Nat) (c : Char) (parting : Parting) :
    (cons c parting).statementsFrom start = parting.statementsFrom (start + c.utf8Size) := by
  cases parting with
  | last gap => rfl
  | next gap spelling found more => simp [cons, statementsFrom, Nat.add_assoc]

lemma statementsFrom_ofPieces (start : Nat) (pieces : List Piece) :
    (ofPieces pieces).statementsFrom start = Text.statementsFrom start pieces := by
  induction pieces generalizing start with
  | nil => rfl
  | cons piece rest ih =>
    cases piece with
    | gap c => rw [ofPieces, statementsFrom_cons, ih, Text.statementsFrom]
    | statement own found => simp [ofPieces, statementsFrom, ih, Text.statementsFrom]

lemma valid_cons {c : Char} {parting : Parting}
    (none : Import.read? (c :: parting.text) = none) (valid : parting.Valid) :
    (cons c parting).Valid := by
  cases parting with
  | last gap =>
    refine quiet_cons_iff.2 ⟨?_, valid⟩
    rw [List.append_nil]
    exact none
  | next gap spelling found more =>
    obtain ⟨quiet, spells, valid⟩ := valid
    rw [text, List.append_assoc] at none
    exact ⟨quiet_cons_iff.2 ⟨none, quiet⟩, spells, valid⟩

/-- The pieces that a text is read as part it. -/
lemma valid_ofPieces {pieces : List Piece} (h : Text.pieces (Text.ofPieces pieces) = pieces) :
    (ofPieces pieces).Valid := by
  induction pieces with
  | nil => exact fun lead c more eq => absurd eq (by simp)
  | cons piece rest ih =>
    rw [Text.ofPieces_cons] at h
    cases piece with
    | gap c =>
      have whole : Text.pieces (c :: Text.ofPieces rest) = .gap c :: rest := h
      obtain ⟨none, tail⟩ := Text.pieces_gap_iff.1 whole
      rw [← text_ofPieces] at none
      exact valid_cons none (ih tail)
    | statement own found =>
      obtain ⟨read, tail⟩ := Text.pieces_statement_iff.1 h
      rw [← text_ofPieces] at read
      have spells := (Import.read?_eq_some_iff.1 read).2
      exact ⟨fun lead c more eq => absurd eq (by simp), spells, ih tail⟩

lemma ofPieces_append_statement (gap own : Text) (found : Import) (rest : List Piece) :
    ofPieces (gap.map .gap ++ .statement own found :: rest) = next gap own found (ofPieces rest) := by
  induction gap with
  | nil => rfl
  | cons c gap ih => rw [List.map_cons, List.cons_append, ofPieces, ih, cons]

lemma ofPieces_map_gap (gap : Text) : ofPieces (gap.map .gap) = last gap := by
  induction gap with
  | nil => rfl
  | cons c gap ih => rw [List.map_cons, ofPieces, ih, cons]

/-- Whoever parts a text parts it into the pieces that it is read as. -/
lemma Valid.ofPieces_pieces {parting : Parting} (valid : parting.Valid) :
    ofPieces parting.text.pieces = parting := by
  induction parting with
  | last gap =>
    have pieces := Quiet.pieces_append valid
    rw [List.append_nil, Text.pieces_nil, List.append_nil] at pieces
    rw [text, pieces, ofPieces_map_gap]
  | next gap spelling found more ih =>
    obtain ⟨quiet, spells, valid⟩ := valid
    have read := Import.read?_eq_some_iff.2 ⟨rfl, spells⟩
    rw [text, List.append_assoc, quiet.pieces_append, Text.pieces_of_read read,
      ofPieces_append_statement, ih valid]

end Parting

namespace Text

/-- A text can be parted in one way, and its statements are the imports of that. -/
theorem exists_parting_iff (text : Text) :
    ∃ parting : Parting, (∀ other : Parting, other.text = text ∧ other.Valid ↔ other = parting) ∧
      text.statements = parting.statementsFrom 0 := by
  refine ⟨.ofPieces text.pieces, fun other => ?_, ?_⟩
  · constructor
    · rintro ⟨rfl, valid⟩
      exact valid.ofPieces_pieces.symm
    · rintro rfl
      have whole := ofPieces_pieces text
      refine ⟨?_, Parting.valid_ofPieces ?_⟩
      · rw [Parting.text_ofPieces, whole]
      · rw [whole]
  · rw [Parting.statementsFrom_ofPieces, statements]

end Text

/-! ### Rendered imports -/

namespace Import

lemma statements_render_of_writable {found : Import} (writable : found.Writable) :
    found.render.statements = [⟨found, 0, found.render.byteSize⟩] := by
  have read := read?_render_append writable []
  rw [List.append_nil] at read
  rw [Text.statements, Text.pieces_of_read read, Text.pieces_nil]
  simp [Text.statementsFrom]

lemma writable_of_mem_statements {text : Text} {statement : Statement}
    (mem : statement ∈ text.statements) : statement.Writable :=
  Text.writable_of_mem_table (List.mem_map_of_mem mem)

/-- The rendering of an import is read as that import alone exactly if its names and its module can
be written. Those of every import that stands in a text can. -/
theorem statements_render :
    (∀ found : Import, found.render.statements = [⟨found, 0, found.render.byteSize⟩] ↔
        (∀ name ∈ found.names, name ≠ [] ∧ name.trim = name ∧ ',' ∉ name ∧ '}' ∉ name) ∧
          found.module ≠ [] ∧ '\'' ∉ found.module ∧ '"' ∉ found.module) ∧
      ∀ text : Text, ∀ statement ∈ text.statements, statement.Writable ∧
        statement.render.statements = [⟨statement.toImport, 0, statement.render.byteSize⟩] := by
  refine ⟨fun found => ⟨fun read => ?_, fun ⟨names, module⟩ => ?_⟩, fun text statement mem => ?_⟩
  · have mem : (⟨found, 0, found.render.byteSize⟩ : Statement) ∈ found.render.statements := by
      rw [read]
      exact List.mem_singleton_self _
    have writable := writable_of_mem_statements mem
    exact ⟨writable.names, writable.module⟩
  · exact statements_render_of_writable ⟨names, module⟩
  · have writable := writable_of_mem_statements mem
    exact ⟨writable, statements_render_of_writable writable⟩

/-- A name may hold an opening brace and the word `import`; the rendering drops the empty name and
the unlike quotes. -/
theorem statements_render_odd_names :
    let text : Text := "// \nimport\t\x7ba\x7bb as import c,, d\x7d from 'm\" ;".toList
    let found : Import := ⟨["a\x7bb as import c".toList, "d".toList], "m".toList⟩
    (⟨found, 4, 43⟩ : Statement) ∈ text.statements ∧ found.Writable ∧
      found.render = "import \x7b a\x7bb as import c, d \x7d from \"m\";".toList ∧
      found.render.statements = [⟨found, 0, found.render.byteSize⟩] := by
  intro text found
  have mem : (⟨found, 4, 43⟩ : Statement) ∈ text.statements := by decide +kernel
  obtain ⟨writable, read⟩ := statements_render.2 text ⟨found, 4, 43⟩ mem
  exact ⟨mem, writable, by decide +kernel, read⟩

end Import

end Rehome
