import Rehome.Proofs.Import.Grammar

/-!
# Searching the imports of one module

The first import of a module is looked for among the statements of the text, which are taken from
the left and never overlap. A search for imports of that module alone may begin anywhere, and so
inside a statement of another module too. Main statement: both find the same, exactly if no import
of the module begins inside a statement behind which the first import of the module stands; they do
where no module holds the word `import` (`Text.importOf?_leftmost_iff`).
-/

namespace Rehome

namespace Text

/-- The import is spelt in the text at its place, whether it overlaps others or not. -/
def Occurs (text : Text) (statement : Statement) : Prop :=
  ∃ before own rest, text = before ++ own ++ rest ∧ statement.toImport.Spells own rest ∧
    statement.start = byteSize before ∧ statement.stop = statement.start + byteSize own

/-- The import is one of `module`, and none of them begins before it. -/
structure Leftmost (text module : Text) (statement : Statement) : Prop where
  occurs : text.Occurs statement
  of_module : statement.module = module
  le : ∀ other, text.Occurs other → other.module = module → statement.start ≤ other.start

/-- What is found among the statements is what a search for imports of `module` alone finds
first. -/
def FindsLeftmost (text module : Text) : Prop :=
  (∀ statement, text.importOf? module = some statement ↔ text.Leftmost module statement) ∧
    (text.importOf? module = none ↔
      ∀ statement, text.Occurs statement → statement.module ≠ module)

variable {text module : Text} {statement other : Statement}

/-! ### Imports at one place -/

lemma occurs_of_mem (h : statement ∈ text.statements) : text.Occurs statement := by
  obtain ⟨before, own, after, pieces, start, stop⟩ := exists_of_mem_statementsFrom h
  have spells := (Import.read?_eq_some_iff.1 (read?_of_pieces_eq pieces)).2
  exact ⟨ofPieces before, own, ofPieces after, eq_of_pieces_eq pieces, spells,
    by rw [start, Nat.zero_add], stop⟩

/-- At one place one import begins. -/
lemma Occurs.eq_of_start_eq (h : text.Occurs statement) (h' : text.Occurs other)
    (same : statement.start = other.start) : statement = other := by
  obtain ⟨before, own, rest, rfl, spells, start, stop⟩ := h
  obtain ⟨before', own', rest', whole, spells', start', stop'⟩ := h'
  rw [List.append_assoc, List.append_assoc] at whole
  have size : byteSize before = byteSize before' := start.symm.trans (same.trans start')
  have front : before = before' := by
    rw [← takeBytes_byteSize_append before (own ++ rest), size, whole, takeBytes_byteSize_append]
  obtain rfl := front
  have read := Import.read?_eq_some_iff.2 ⟨List.append_cancel_left whole, spells'⟩
  rw [Import.read?_eq_some_iff.2 ⟨rfl, spells⟩] at read
  obtain ⟨found, eq, -⟩ := Spelt.mk.inj (Option.some.inj read)
  obtain ⟨import₁, start₁, stop₁⟩ := statement
  obtain ⟨import₂, start₂, stop₂⟩ := other
  cases found
  cases eq
  cases same
  cases stop.trans stop'.symm
  rfl

/-! ### Imports inside others -/

lemma exists_boundary_of_not_straddled {before rest : Text}
    (apart : ¬ Straddled (before ++ rest) (byteSize before)) :
    ∃ front, ofPieces front = before ∧ Boundary front rest := by
  refine exists_boundary fun front back split solid boundary spelt read => ?_
  by_contra crosses
  have across := boundary.straddled solid read (Nat.lt_of_not_le crosses)
  rw [← List.append_assoc, ← byteSize_append, ← split] at across
  exact apart across

/-- What is spelt in a text is one of its statements, or begins inside one. -/
lemma Occurs.mem_or_inside (h : text.Occurs statement) : statement ∈ text.statements ∨
    ∃ outer ∈ text.statements, outer.start < statement.start ∧ statement.start < outer.stop := by
  obtain ⟨before, own, rest, rfl, spells, start, stop⟩ := id h
  rw [List.append_assoc] at h ⊢
  refine or_iff_not_imp_right.2 fun apart => ?_
  rw [start] at apart
  obtain ⟨front, rfl, boundary⟩ := exists_boundary_of_not_straddled apart
  have read := Import.read?_eq_some_iff.2 ⟨rfl, spells⟩
  have pieces : pieces (ofPieces front ++ (own ++ rest)) =
      front ++ .statement own statement.toImport :: rest.pieces := by
    rw [boundary, pieces_of_read read]
  have here : (⟨statement.toImport, byteSize (ofPieces front),
      byteSize (ofPieces front) + byteSize own⟩ : Statement) ∈
        statements (ofPieces front ++ (own ++ rest)) := by
    rw [statements, pieces, statementsFrom_append, Nat.zero_add]
    simp [statementsFrom]
  rw [← start, ← stop] at here
  exact here

end Text

namespace Import

/-- An import that begins inside another one takes over its module or stands in the name of that. -/
lemma Form.module_of_inside {form inner : Form} {part after tail rest : Text} (solid : part ≠ [])
    (inside : form.text = part ++ 'i' :: after)
    (whole : form.text ++ tail = part ++ (inner.text ++ rest)) :
    inner.module = form.module ∨ keyword <:+: form.module := by
  rcases cut_i solid (cut inside) with ⟨names, last, rfl, list⟩ | ⟨front, last, rfl, module⟩
  -- its names go on to the closing brace of the other
  · have brace : '}' ∉ names := fun mem => form.brace_notMem (by simp [list, mem])
    have spelt := inner.text_closer form.isBlanks brace
    have same : form.text ++ tail = (inner.closer form.isBlanks brace).text ++ rest := by
      rw [whole, spelt]
      simp [head]
    have read := form.read?_append tail
    rw [same, Form.read?_append] at read
    obtain ⟨found, -, -⟩ := Spelt.mk.inj (Option.some.inj read)
    exact .inl (congrArg Import.module found)
  -- the word cannot go on across the quote
  · have word : inner.text ++ rest = keyword ++ (inner.blanks ++ '{' :: inner.list ++
        inner.middle ++ inner.module ++ inner.quote :: rest) := by
      simp [text, head]
    have split : form.head ++ form.list ++ form.middle ++ (form.module ++ form.quote :: tail) =
        form.head ++ form.list ++ form.middle ++ (front ++ keyword ++ (inner.blanks ++
          '{' :: inner.list ++ inner.middle ++ inner.module ++ inner.quote :: rest)) := by
      rw [word] at whole
      simpa [text] using whole
    have quoted := List.append_cancel_left split
    rcases Text.append_eq_append_cons quoted.symm with ⟨more, eq⟩ | ⟨more, eq, -⟩
    · have mem : form.quote ∈ front ++ keyword := by simp [eq]
      have free : Text.isQuote form.quote = false := by
        rcases List.mem_append.1 mem with mem | mem
        · exact isQuote_of_mem_part module _ mem
        · exact isQuote_of_mem_keyword mem
      exact absurd form.isQuote (by simp [free])
    · exact .inr ⟨front, more, eq.symm⟩

end Import

namespace Text

variable {text module : Text} {outer inner statement : Statement}

/-- No import begins in front of a closing semicolon, so that one which begins inside another begins
before the end of its form. -/
lemma exists_inside_of_closes {form inner : Import.Form} {part tail rest behind : Text}
    (closes : Import.Closes tail rest)
    (whole : form.text ++ (tail ++ rest) = part ++ (inner.text ++ behind))
    (short : byteSize part < byteSize (form.text ++ tail)) :
    ∃ after, form.text = part ++ 'i' :: after := by
  obtain ⟨letters, begins⟩ : ∃ letters, inner.text ++ behind = 'i' :: letters := ⟨_, rfl⟩
  rcases append_eq_append_cons (whole.trans (congrArg (part ++ ·) begins)) with
    inside | ⟨more, rfl, split⟩
  · exact inside
  · exfalso
    have space : (closing (more ++ 'i' :: letters)).1.length ≤ more.length :=
      length_closing_le rfl (by decide)
    rw [← split, Import.closes_iff.1 closes] at space
    rcases append_eq_append_split split with ⟨back, rfl, -⟩ | ⟨c, back, rfl⟩
    · simp only [byteSize_append] at short
      omega
    · simp only [List.length_append, List.length_cons] at space
      omega

lemma Occurs.module_of_inside (h : text.Occurs outer) (h' : text.Occurs inner)
    (start : outer.start < inner.start) (stop : inner.start < outer.stop) :
    inner.module = outer.module ∨ Import.keyword <:+: outer.module := by
  obtain ⟨before, own, rest, rfl, ⟨form, tail, rfl, closes, -, same⟩, at₀, at₁⟩ := h
  obtain ⟨before', own', rest', whole, ⟨form', tail', rfl, -, -, same'⟩, at₀', -⟩ := h'
  rw [at₁, at₀, at₀'] at stop
  rw [at₀, at₀'] at start
  simp only [List.append_assoc] at whole
  rcases append_eq_append_split whole with ⟨part, rfl, split⟩ | ⟨c, more, rfl⟩
  · rw [byteSize_append] at start stop
    have solid : part ≠ [] := by
      rintro rfl
      simp at start
    obtain ⟨after, inside⟩ := exists_inside_of_closes closes split (by omega)
    rw [same, same']
    exact Import.Form.module_of_inside solid inside split
  · rw [byteSize_append] at start
    omega

/-! ### The first import of a module -/

lemma stop_le_start (mem : outer ∈ text.statements) (mem' : inner ∈ text.statements)
    (start : outer.start < inner.start) : outer.stop ≤ inner.start := by
  obtain ⟨front, back, eq⟩ := List.append_of_mem mem
  have order := text.pairwise_statements
  have filled := start_lt_stop_of_mem mem'
  rw [eq, List.pairwise_append, List.pairwise_cons] at order
  obtain ⟨-, ⟨behind, -⟩, across⟩ := order
  rw [eq, List.mem_append, List.mem_cons] at mem'
  rcases mem' with early | rfl | late
  · have := across inner early outer List.mem_cons_self
    omega
  · exact absurd start (Nat.lt_irrefl _)
  · exact behind inner late

/-- The first import of a module is the statement of it that begins first. -/
lemma importOf?_eq_some_iff : text.importOf? module = some statement ↔
    statement ∈ text.statements ∧ statement.module = module ∧
      ∀ other ∈ text.statements, other.module = module → statement.start ≤ other.start := by
  have least : ∀ statement, text.importOf? module = some statement →
      statement ∈ text.statements ∧ statement.module = module ∧
        ∀ other ∈ text.statements, other.module = module → statement.start ≤ other.start := by
    intro statement found
    have mem := List.mem_of_find?_eq_some found
    obtain ⟨same, front, back, eq, others⟩ := List.find?_eq_some_iff_append.1 found
    have order := text.pairwise_statements
    rw [eq, List.pairwise_append, List.pairwise_cons] at order
    refine ⟨mem, of_decide_eq_true same, fun other mem' same' => ?_⟩
    rw [eq, List.mem_append, List.mem_cons] at mem'
    rcases mem' with early | rfl | late
    · simpa [same'] using others other early
    · exact Nat.le_refl _
    · exact (start_lt_stop_of_mem mem).le.trans (order.2.1.1 other late)
  refine ⟨least statement, fun ⟨mem, same, first⟩ => ?_⟩
  have some : text.importOf? module ≠ none := fun none =>
    importOf?_eq_none_iff.1 none _ (List.mem_map_of_mem mem) same
  obtain ⟨found, eq⟩ := Option.ne_none_iff_exists'.1 some
  obtain ⟨mem', same', first'⟩ := least found eq
  have starts : found.start = statement.start :=
    Nat.le_antisymm (first' statement mem same) (first found mem' same')
  rw [eq, (occurs_of_mem mem').eq_of_start_eq (occurs_of_mem mem) starts]

/-- Imports of the module that begin inside a statement do no harm behind the first one. -/
lemma findsLeftmost_of_forall
    (h : ∀ outer ∈ text.statements, ∀ inner, text.Occurs inner → inner.module = module →
      outer.start < inner.start → inner.start < outer.stop →
        ∃ first ∈ text.statements, first.module = module ∧ first.start ≤ outer.start) :
    text.FindsLeftmost module := by
  -- whatever is spelt, a statement of the module begins no later
  have early : ∀ inner, text.Occurs inner → inner.module = module →
      ∃ first ∈ text.statements, first.module = module ∧ first.start ≤ inner.start := by
    intro inner occurs same
    rcases occurs.mem_or_inside with mem | ⟨outer, mem, start, stop⟩
    · exact ⟨inner, mem, same, Nat.le_refl _⟩
    · obtain ⟨first, mem', same', le⟩ := h outer mem inner occurs same start stop
      exact ⟨first, mem', same', by omega⟩
  have leftmost : ∀ statement, text.importOf? module = some statement →
      text.Leftmost module statement := by
    intro statement found
    obtain ⟨mem, same, least⟩ := importOf?_eq_some_iff.1 found
    refine ⟨occurs_of_mem mem, same, fun inner occurs same' => ?_⟩
    obtain ⟨first, mem', same'', le⟩ := early inner occurs same'
    exact (least first mem' same'').trans le
  have none : text.importOf? module = none →
      ∀ statement, text.Occurs statement → statement.module ≠ module := by
    intro none statement occurs same
    obtain ⟨first, mem, same', -⟩ := early statement occurs same
    exact importOf?_eq_none_iff.1 none _ (List.mem_map_of_mem mem) same'
  refine ⟨fun statement => ⟨leftmost statement, fun first => ?_⟩, none, fun others => ?_⟩
  · obtain ⟨found, eq⟩ := Option.ne_none_iff_exists'.1 fun empty =>
      none empty statement first.occurs first.of_module
    have other := leftmost found eq
    have starts : found.start = statement.start :=
      Nat.le_antisymm (other.le statement first.occurs first.of_module)
        (first.le found other.occurs other.of_module)
    rw [eq, other.occurs.eq_of_start_eq first.occurs starts]
  · refine importOf?_eq_none_iff.2 fun found mem => ?_
    obtain ⟨statement, listed, rfl⟩ := List.mem_map.1 mem
    exact others statement (occurs_of_mem listed)

/-- The first statement of a module is the leftmost of its imports that are spelt in the text, and
there is none only if none is spelt, exactly if each of them that begins inside a statement has a
statement of the module before it, or is inside one. So it is where no module holds the word
`import`. -/
theorem importOf?_leftmost_iff (text module : Text) :
    (text.FindsLeftmost module ↔
      ∀ outer ∈ text.statements, ∀ inner, text.Occurs inner → inner.module = module →
        outer.start < inner.start → inner.start < outer.stop →
          ∃ first ∈ text.statements, first.module = module ∧ first.start ≤ outer.start) ∧
    ((∀ found ∈ text.table, ¬ Import.keyword <:+: found.module) → text.FindsLeftmost module) := by
  refine ⟨⟨?_, findsLeftmost_of_forall⟩, fun wordless => findsLeftmost_of_forall ?_⟩
  · rintro ⟨leftmost, none⟩ outer mem inner occurs same start stop
    obtain ⟨first, eq⟩ := Option.ne_none_iff_exists'.1 fun empty =>
      none.1 empty inner occurs same
    obtain ⟨mem', same', -⟩ := importOf?_eq_some_iff.1 eq
    have le := ((leftmost first).1 eq).le inner occurs same
    refine ⟨first, mem', same', Nat.le_of_not_lt fun behind => ?_⟩
    have := stop_le_start mem mem' behind
    omega
  · intro outer mem inner occurs same start stop
    refine ⟨outer, mem, ?_, Nat.le_refl _⟩
    rcases (occurs_of_mem mem).module_of_inside occurs start stop with eq | word
    · exact eq ▸ same
    · exact absurd word (wordless _ (List.mem_map_of_mem mem))

/-- Where an import is broken off among its names, the next one is spelt twice, and found from where
the first begins. -/
theorem importOf?_leftmost_among_names :
    let text : Text := "import \x7b Order,\nimport \x7b saveOrder \x7d from 'orders';\n".toList
    let module : Text := "orders".toList
    let outer : Statement := ⟨⟨["Order".toList, "import \x7b saveOrder".toList], module⟩, 0, 51⟩
    let inner : Statement := ⟨⟨["saveOrder".toList], module⟩, 16, 51⟩
    (∀ found ∈ text.table, ¬ Import.keyword <:+: found.module) ∧ text.Occurs inner ∧
      text.Leftmost module outer := by
  intro text module outer inner
  have wordless : ∀ found ∈ text.table, ¬ Import.keyword <:+: found.module := by decide +kernel
  have found : text.importOf? module = some outer := by decide +kernel
  have read : Import.read? (text.drop 16) = some ⟨inner.toImport, text.dropLast.drop 16, ['\n']⟩ := by
    decide +kernel
  obtain ⟨-, spells⟩ := Import.read?_eq_some_iff.1 read
  have occurs : text.Occurs inner :=
    ⟨text.take 16, text.dropLast.drop 16, ['\n'], by decide, spells, by decide, by decide⟩
  exact ⟨wordless, occurs, (((importOf?_leftmost_iff text module).2 wordless).1 outer).1 found⟩

/-- The quote that ends a text constant opens the module of an import in it, and the import behind
the constant is passed over. -/
theorem importOf?_leftmost_in_constant :
    let text : Text := "const hint = 'import \x7b Order \x7d from ';\n".toList ++
      "import \x7b Order \x7d from '@/utils/orderStorage';\n".toList
    let module : Text := "@/utils/orderStorage".toList
    let inner : Statement := ⟨⟨["Order".toList], module⟩, 39, 84⟩
    Import.IsModule module ∧ text.Occurs inner ∧ text.importOf? module = none ∧
      ¬ text.FindsLeftmost module := by
  intro text module inner
  have none : text.importOf? module = none := by decide +kernel
  have read : Import.read? (text.drop 39) = some ⟨inner.toImport, text.dropLast.drop 39, ['\n']⟩ := by
    decide +kernel
  obtain ⟨-, spells⟩ := Import.read?_eq_some_iff.1 read
  have occurs : text.Occurs inner :=
    ⟨text.take 39, text.dropLast.drop 39, ['\n'], by decide, spells, by decide, by decide⟩
  exact ⟨by decide, occurs, none, fun leftmost => leftmost.2.1 none inner occurs rfl⟩

end Text

end Rehome
