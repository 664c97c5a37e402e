import Rehome.Proofs.Import.Insertion
import Rehome.Proofs.Rewrite.Step

/-!
# Tables of imports

A rule edits a text, but what it does can be told from the table of names and modules alone: it
takes its type out of the first entry of its home and lists it in the first entry of the
destination. Main statement: the text that a rule leaves has exactly the edited table
(`table_apply`).
-/

namespace Rehome

/-- An import as it is written into a text. -/
def Piece.written (found : Import) : Piece :=
  .statement found.render found

/-- What is left of an import when a name is taken out: nothing if there was no other. -/
def Import.without (found : Import) (name : Text) : List Import :=
  match found.names.erase name with
  | [] => []
  | names => [⟨names, found.module⟩]

/-- The import with a name listed last, unless it is listed already. -/
def Import.including (found : Import) (name : Text) : Import :=
  if name ∈ found.names then found else ⟨found.names ++ [name], found.module⟩

lemma Import.eq_of_mem_without {found new : Import} {name : Text} (h : new ∈ found.without name) :
    new = ⟨found.names.erase name, found.module⟩ := by
  rw [without] at h
  split at h
  · cases h
  · exact List.mem_singleton.1 h

namespace Table

/-- The table with its first entry of `module` replaced by the entries `f` makes of it. -/
def revise (module : Text) (f : Import → List Import) : List Import → List Import
  | [] => []
  | found :: rest =>
    if found.module = module then f found ++ rest else found :: revise module f rest

/-- The table with the rule's type taken out of the first entry of its home. -/
def withdraw (rule : Rule) (table : List Import) : List Import :=
  revise rule.home (fun found => found.without rule.typeName) table

/-- The table with `typeName` in its first entry of `destination`, or with a new entry at place
`slot` if it has none. -/
def enlist (typeName destination : Text) (slot : Nat) (table : List Import) : List Import :=
  if ∃ found ∈ table, found.module = destination then
    revise destination (fun found => [found.including typeName]) table
  else table.insertIdx slot ⟨[typeName], destination⟩

lemma revise_append {module : Text} {f : Import → List Import} {front : List Import}
    (others : ∀ found ∈ front, found.module ≠ module) (back : List Import) :
    revise module f (front ++ back) = front ++ revise module f back := by
  induction front with
  | nil => rfl
  | cons found front ih =>
    rw [List.cons_append, revise, if_neg (others found List.mem_cons_self),
      ih fun found mem => others found (List.mem_cons_of_mem _ mem), List.cons_append]

lemma revise_of_forall_ne {module : Text} {f : Import → List Import} {table : List Import}
    (others : ∀ found ∈ table, found.module ≠ module) : revise module f table = table := by
  have := revise_append (f := f) others []
  simpa [revise] using this

lemma exists_first {module : Text} {table : List Import}
    (h : ∃ found ∈ table, found.module = module) :
    ∃ front found back, table = front ++ found :: back ∧ found.module = module ∧
      ∀ other ∈ front, other.module ≠ module := by
  have some : (table.find? fun found => found.module = module).isSome := by
    simpa using h
  obtain ⟨found, eq⟩ := Option.isSome_iff_exists.1 some
  obtain ⟨same, front, back, rfl, others⟩ := List.find?_eq_some_iff_append.1 eq
  refine ⟨front, found, back, rfl, by simpa using same, fun other mem => ?_⟩
  simpa using others other mem

lemma insertIdx_length_append (front back : List Import) (found : Import) :
    (front ++ back).insertIdx front.length found = front ++ found :: back := by
  induction front with
  | nil => rfl
  | cons first front ih => rw [List.cons_append, List.length_cons, List.insertIdx_succ_cons, ih,
      List.cons_append]

lemma exists_insertIdx {slot : Nat} {table : List Import} (h : slot ≤ table.length) :
    ∃ front back, table = front ++ back ∧
      ∀ found, table.insertIdx slot found = front ++ found :: back := by
  refine ⟨table.take slot, table.drop slot, (List.take_append_drop slot table).symm, ?_⟩
  intro found
  have inserted := insertIdx_length_append (table.take slot) (table.drop slot) found
  rwa [List.take_append_drop, List.length_take_of_le h] at inserted

lemma revise_cons_self {f : Import → List Import} (found : Import) (rest : List Import) :
    revise found.module f (found :: rest) = f found ++ rest :=
  if_pos rfl

/-- An edit changes nothing, or the first entry of the module and no other. -/
lemma revise_cases (module : Text) (f : Import → List Import) (table : List Import) :
    (∀ found ∈ table, found.module ≠ module) ∧ revise module f table = table ∨
      ∃ front found back, table = front ++ found :: back ∧ found.module = module ∧
        (∀ other ∈ front, other.module ≠ module) ∧
          revise module f table = front ++ (f found ++ back) := by
  by_cases h : ∃ found ∈ table, found.module = module
  · obtain ⟨front, found, back, rfl, rfl, others⟩ := exists_first h
    refine .inr ⟨front, found, back, rfl, rfl, others, ?_⟩
    rw [revise_append others, revise_cons_self]
  · have none : ∀ found ∈ table, found.module ≠ module := fun found mem same =>
      h ⟨found, mem, same⟩
    exact .inl ⟨none, revise_of_forall_ne none⟩

lemma mem_revise {module : Text} {f : Import → List Import} {new : Import}
    (h : new ∈ revise module f table) :
    ∃ found ∈ table, new = found ∨ found.module = module ∧ new ∈ f found := by
  rcases revise_cases module f table with ⟨-, eq⟩ | ⟨front, found, back, rfl, same, -, eq⟩
  · rw [eq] at h
    exact ⟨new, h, .inl rfl⟩
  · rw [eq, List.mem_append, List.mem_append] at h
    rcases h with mem | mem | mem
    · exact ⟨new, by simp [mem], .inl rfl⟩
    · exact ⟨found, by simp, .inr ⟨same, mem⟩⟩
    · exact ⟨new, by simp [mem], .inl rfl⟩

end Table

namespace Placement

/-- The number of statements that end at or before the point where a new import goes. -/
def slot (text : Text) : Nat :=
  match point? text with
  | some n => (text.statements.filter fun statement => statement.stop ≤ n).length
  | none => 0

lemma slot_le (text : Text) : slot text ≤ text.table.length := by
  rw [slot, Text.table, List.length_map]
  split
  · exact List.length_filter_le _ _
  · exact Nat.zero_le _

end Placement

namespace Text

lemma writable_of_importOf? {text module : Text} {statement : Statement}
    (h : text.importOf? module = some statement) : statement.toImport.Writable := by
  have mem : statement ∈ text.statements := List.mem_of_find?_eq_some h
  exact writable_of_mem_table (List.mem_map_of_mem mem)

/-! ### Order of statements -/

/-- The statements that end at or before a boundary are those of the pieces before it. -/
lemma filter_statements_eq {text : Text} {front back : List Piece}
    (pieces : text.pieces = front ++ back) :
    text.statements.filter (fun statement => statement.stop ≤ byteSize (ofPieces front)) =
      statementsFrom 0 front := by
  rw [statements, pieces, statementsFrom_append, List.filter_append]
  have kept : (statementsFrom 0 front).filter
      (fun statement => statement.stop ≤ byteSize (ofPieces front)) = statementsFrom 0 front := by
    refine List.filter_eq_self.2 fun statement mem => decide_eq_true ?_
    have := stop_le_of_mem_statementsFrom mem
    omega
  have gone : (statementsFrom (0 + byteSize (ofPieces front)) back).filter
      (fun statement => statement.stop ≤ byteSize (ofPieces front)) = [] := by
    refine List.filter_eq_nil_iff.2 fun statement mem => ?_
    have := start_lt_stop pieces mem
    simp only [decide_eq_true_eq]
    omega
  rw [kept, gone, List.append_nil]

lemma stop_le_iff_lt_length {n : Nat} {statements : List Statement}
    (order : statements.Pairwise fun first second => first.stop < second.stop) {i : Nat}
    (h : i < statements.length) :
    statements[i].stop ≤ n ↔
      i < (statements.filter fun statement => statement.stop ≤ n).length := by
  induction statements generalizing i with
  | nil => exact absurd h (Nat.not_lt_zero _)
  | cons first rest ih =>
    obtain ⟨later, order⟩ := List.pairwise_cons.1 order
    by_cases early : first.stop ≤ n
    · rw [List.filter_cons_of_pos (by simpa using early), List.length_cons]
      cases i with
      | zero => simpa using early
      | succ i => simpa using ih order (Nat.lt_of_succ_lt_succ h)
    · have none : (first :: rest).filter (fun statement => statement.stop ≤ n) = [] := by
        refine List.filter_eq_nil_iff.2 fun statement mem => ?_
        rw [decide_eq_true_eq]
        rcases List.mem_cons.1 mem with rfl | mem
        · exact early
        · have := later statement mem
          omega
      rw [none]
      have late : n < (first :: rest)[i].stop := by
        cases i with
        | zero => exact Nat.lt_of_not_le early
        | succ i =>
          have := later _ (List.getElem_mem (Nat.lt_of_succ_lt_succ h))
          rw [List.getElem_cons_succ]
          omega
      simp only [List.length_nil, Nat.not_lt_zero, iff_false]
      omega

/-- The statements that end at or before the point are those before the slot. -/
lemma stop_le_iff_lt_slot {text : Text} {n : Nat} (point : Placement.point? text = some n) {i : Nat}
    (h : i < text.statements.length) :
    text.statements[i].stop ≤ n ↔ i < Placement.slot text := by
  have order : text.statements.Pairwise fun first second => first.stop < second.stop :=
    text.pairwise_statements.imp_of_mem fun _ mem le => le.trans_lt (start_lt_stop_of_mem mem)
  rw [Placement.slot, point]
  exact stop_le_iff_lt_length order h

lemma slot_eq_length {text : Text} {front back : List Piece} (pieces : text.pieces = front ++ back)
    (point : Placement.point? text = some (byteSize (ofPieces front))) :
    Placement.slot text = (importsIn front).length := by
  rw [Placement.slot, point]
  dsimp only
  rw [filter_statements_eq pieces, ← map_toImport_statementsFrom 0, List.length_map]

/-! ### Edits of a statement -/

/-- Setting a text in the place of a statement, between the pieces around it. -/
lemma splice_statement {text own new : Text} {statement : Statement} {before after : List Piece}
    (pieces : text.pieces = before ++ .statement own statement.toImport :: after)
    (start : statement.start = byteSize (ofPieces before))
    (stop : statement.stop = statement.start + byteSize own) :
    text.splice statement.start statement.stop new = ofPieces before ++ new ++ ofPieces after := by
  rw [stop, start, eq_of_pieces_eq pieces, splice_append]

@[simp] lemma importsIn_map_written (table : List Import) :
    importsIn (table.map .written) = table := by
  induction table with
  | nil => rfl
  | cons found table ih => exact congrArg (found :: ·) ih

lemma writable_including {found : Import} {name : Text} (writable : found.Writable)
    (isName : Import.IsName name) : (found.including name).Writable := by
  rw [Import.including]
  split
  · exact writable
  · refine ⟨fun n mem => ?_, writable.module⟩
    rcases List.mem_append.1 mem with mem | mem
    · exact writable.names n mem
    · cases List.mem_singleton.1 mem
      exact isName

/-- The pieces that are left when a type is taken out of a statement. -/
lemma pieces_withdraw {text own typeName : Text} {statement : Statement}
    {before after : List Piece}
    (pieces : text.pieces = before ++ .statement own statement.toImport :: after)
    (start : statement.start = byteSize (ofPieces before))
    (stop : statement.stop = statement.start + byteSize own)
    (apart : statement.names.erase typeName = [] →
      ¬ (text.withdraw statement typeName).Straddled statement.start) :
    (text.withdraw statement typeName).pieces =
      before ++ (statement.toImport.without typeName).map .written ++ after := by
  rw [withdraw, splice_statement pieces start stop] at apart ⊢
  have writable := Import.writable_of_read? (read?_of_pieces_eq pieces)
  rw [Import.without]
  cases names : statement.names.erase typeName with
  | nil =>
    have apart := apart names
    rw [names, start] at apart
    simp only [List.append_nil, List.map_nil] at apart ⊢
    exact pieces_remove pieces apart
  | cons name names' =>
    have sound : Import.Writable ⟨name :: names', statement.module⟩ :=
      ⟨fun n mem => writable.names n (List.mem_of_mem_erase (names ▸ mem)), writable.module⟩
    simpa [Piece.written] using pieces_replace pieces sound

/-- The pieces when a type is listed in a statement of the destination. -/
lemma pieces_enlist_of_some {text typeName destination : Text} {statement : Statement}
    (isName : Import.IsName typeName) (found : text.importOf? destination = some statement) :
    ∃ before own after, text.pieces = before ++ .statement own statement.toImport :: after ∧
      statement.module = destination ∧ (∀ found ∈ importsIn before, found.module ≠ destination) ∧
      ((typeName ∈ statement.names ∧ text.enlist typeName destination = text) ∨
        (typeName ∉ statement.names ∧ (text.enlist typeName destination).pieces =
          before ++ .written (statement.toImport.including typeName) :: after)) := by
  obtain ⟨before, own, after, pieces, start, stop, same, others⟩ :=
    exists_of_importOf?_eq_some found
  refine ⟨before, own, after, pieces, same, others, ?_⟩
  rw [enlist, found]
  by_cases listed : typeName ∈ statement.names
  · exact .inl ⟨listed, if_pos listed⟩
  · refine .inr ⟨listed, ?_⟩
    have writable := Import.writable_of_read? (read?_of_pieces_eq pieces)
    have sound := writable_including writable isName
    rw [Import.including, if_neg listed] at sound ⊢
    dsimp only
    rw [if_neg listed, splice_statement pieces start stop]
    exact pieces_replace pieces sound

/-- The pieces when a type is listed in a new statement of the destination. -/
lemma pieces_enlist_of_none {text typeName destination : Text} (isName : Import.IsName typeName)
    (isModule : Import.IsModule destination) (unbroken : Placement.Unbroken text)
    (none : text.importOf? destination = none) :
    (Placement.point? text = Option.none ∧ (text.enlist typeName destination).pieces =
        .written ⟨[typeName], destination⟩ :: (text.lineBreak.map .gap ++ text.pieces)) ∨
      ∃ front back, text.pieces = front ++ back ∧
        Placement.point? text = some (byteSize (ofPieces front)) ∧
        Placement.Seam (ofPieces front) (ofPieces back) ∧
        (text.enlist typeName destination).pieces = front ++ ((ofPieces back).lineBreak.map .gap ++
          .written ⟨[typeName], destination⟩ :: back) := by
  have writable := Import.writable_singleton isName isModule
  rw [enlist, none]
  cases point : Placement.point? text with
  | none => exact .inl ⟨rfl, Placement.pieces_insert_of_none point writable⟩
  | some n =>
    obtain ⟨front, back, pieces, rfl, seam, inserted⟩ :=
      Placement.pieces_insert point unbroken writable
    exact .inr ⟨front, back, pieces, rfl, seam, inserted⟩

end Text

namespace Table

/-- The entry that a rule takes its type out of stands for the first import of its home. -/
lemma exists_withdraw_eq {rule : Rule} {text : Text} {statement : Statement}
    (first : text.importOf? rule.home = some statement) :
    ∃ front back, text.table = front ++ statement.toImport :: back ∧
      withdraw rule text.table =
        front ++ (statement.toImport.without rule.typeName ++ back) := by
  obtain ⟨before, own, after, pieces, -, -, same, others⟩ := Text.exists_of_importOf?_eq_some first
  have table : text.table = Text.importsIn before ++ statement.toImport :: Text.importsIn after := by
    rw [Text.table_eq, pieces, Text.importsIn_append, Text.importsIn_statement]
  refine ⟨_, _, table, ?_⟩
  rw [withdraw, table, revise_append others, ← same, revise_cons_self]

/-- Taking out a type edits the table alone. -/
lemma table_left {rule : Rule} {text : Text}
    (apart : ∀ statement, text.importOf? rule.home = some statement →
      statement.names.erase rule.typeName = [] → ¬ (rule.left text).Straddled statement.start) :
    (rule.left text).table = withdraw rule text.table := by
  rw [Rule.left] at apart ⊢
  cases first : text.importOf? rule.home with
  | none => exact (revise_of_forall_ne (Text.importOf?_eq_none_iff.1 first)).symm
  | some statement =>
    rw [first] at apart
    obtain ⟨before, own, after, pieces, start, stop, same, others⟩ :=
      Text.exists_of_importOf?_eq_some first
    have left := Text.pieces_withdraw pieces start stop (apart statement rfl)
    rw [Text.table_eq, Text.table_eq, left, pieces, withdraw, Text.importsIn_append,
      Text.importsIn_append, Text.importsIn_append, Text.importsIn_statement,
      revise_append others, ← same, revise_cons_self, Text.importsIn_map_written, List.append_assoc]

/-- Listing a type in the destination edits the table alone. -/
lemma table_enlist {text typeName destination : Text} (isName : Import.IsName typeName)
    (isModule : Import.IsModule destination)
    (unbroken : text.importOf? destination = none → Placement.Unbroken text) :
    (text.enlist typeName destination).table =
      enlist typeName destination (Placement.slot text) text.table := by
  cases found : text.importOf? destination with
  | some statement =>
    obtain ⟨before, own, after, pieces, same, others, edit⟩ :=
      Text.pieces_enlist_of_some isName found
    have listed : ∃ found ∈ text.table, found.module = destination := by
      refine ⟨statement.toImport, ?_, same⟩
      rw [Text.table_eq, pieces]
      simp
    rw [enlist, if_pos listed, Text.table_eq text, pieces, Text.importsIn_append,
      Text.importsIn_statement, revise_append others, ← same, revise_cons_self, same]
    rcases edit with ⟨listed, kept⟩ | ⟨-, edited⟩
    · rw [kept, Text.table_eq, pieces, Import.including, if_pos listed]
      simp
    · rw [Text.table_eq, edited]
      simp [Piece.written]
  | none =>
    have others : ¬ ∃ found ∈ text.table, found.module = destination := by
      rintro ⟨other, mem, same⟩
      exact Text.importOf?_eq_none_iff.1 found other mem same
    rw [enlist, if_neg others, Text.table_eq]
    rcases Text.pieces_enlist_of_none isName isModule (unbroken found) found with
      ⟨point, inserted⟩ | ⟨front, back, pieces, point, -, inserted⟩
    · rw [inserted, Placement.slot, point, Text.table_eq]
      simp [Piece.written]
    · rw [inserted, Text.slot_eq_length pieces point, Text.table_eq, pieces,
        Text.importsIn_append front back, insertIdx_length_append]
      simp [Piece.written]

/-- A rule that moves its type leaves the text with exactly the table edited in two steps: the type
goes out of the first entry of its home, and then into the first entry of the destination, or else
into a new entry behind those that end at or before the point of insertion. -/
theorem table_apply {rule : Rule} {destination text : Text}
    (isModule : Import.IsModule destination)
    (moved : (rule.apply destination text).effect = .moved)
    (apart : ∀ statement, text.importOf? rule.home = some statement →
      statement.names.erase rule.typeName = [] → ¬ (rule.left text).Straddled statement.start)
    (unbroken : (rule.left text).importOf? destination = none →
      ∀ n, Placement.point? (rule.left text) = some n →
        ∀ before back, (rule.left text).takeBytes n = before ++ back → ¬ Import.Opens back) :
    (rule.apply destination text).text.table =
        enlist rule.typeName destination (Placement.slot (rule.left text))
          (withdraw rule text.table) ∧
      (rule.left text).table = withdraw rule text.table ∧
      (Placement.point? (rule.left text) = none → Placement.slot (rule.left text) = 0) ∧
      ∀ n, Placement.point? (rule.left text) = some n →
        ∀ (i : Nat) (h : i < (rule.left text).statements.length),
          (rule.left text).statements[i].stop ≤ n ↔ i < Placement.slot (rule.left text) := by
  obtain ⟨statement, first, listed, apply⟩ := rule.exists_of_apply_moved moved
  have isName : Import.IsName rule.typeName :=
    (Text.writable_of_importOf? first).names _ listed
  have left := table_left apart
  have unbroken' : (rule.left text).importOf? destination = none →
      Placement.Unbroken (rule.left text) := by
    intro none
    rw [Placement.Unbroken]
    intro front back after whole _ _ point
    refine unbroken none _ point (Text.ofPieces front) back ?_
    rw [whole, Text.takeBytes_byteSize_append]
  refine ⟨?_, left, ?_, fun n point i h => Text.stop_le_iff_lt_slot point h⟩
  · rw [apply, table_enlist isName isModule unbroken', left]
  · intro none
    rw [Placement.slot, none]

/-- The only name of an import moves behind the directive. -/
theorem table_apply_behind_directive :
    let text : Text :=
      "'use client';\nimport \x7b A \x7d from 'a'\nimport \x7b B \x7d from 'b'\n".toList
    let rule : Rule := ⟨"A".toList, "a".toList⟩
    Import.IsModule "t".toList ∧ (rule.apply "t".toList text).effect = .moved ∧
      (rule.apply "t".toList text).text.table =
        [⟨["A".toList], "t".toList⟩, ⟨["B".toList], "b".toList⟩] := by
  intro text rule
  have isModule : Import.IsModule "t".toList := by decide
  have moved : (rule.apply "t".toList text).effect = .moved := by decide +kernel
  have first : text.importOf? rule.home = some ⟨⟨["A".toList], "a".toList⟩, 14, 35⟩ := by
    decide +kernel
  have apart : ∀ statement ∈ (rule.left text).statements,
      ¬ (statement.start < 14 ∧ 14 < statement.stop) := by decide +kernel
  have point : Placement.point? (rule.left text) = some 13 := by decide +kernel
  have lead : 'm' ∉ (rule.left text).takeBytes 13 := by decide +kernel
  refine ⟨isModule, moved, (table_apply isModule moved ?_ ?_).1.trans (by decide +kernel)⟩
  · rintro statement eq - ⟨other, mem, start, stop⟩
    cases first.symm.trans eq
    exact apart other mem ⟨start, stop⟩
  · rintro - n eq before back split ⟨blanks, list, -, rfl, -⟩
    cases point.symm.trans eq
    exact lead (split ▸ by simp [Import.keyword])

end Table

end Rehome
