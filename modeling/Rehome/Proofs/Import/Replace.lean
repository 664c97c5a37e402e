import Rehome.Proofs.Import.Boundary

/-!
# An import in the place of another

Where a statement stands, any import that can be written can stand instead. What is read before that
place stays, and what is read behind it only moves. Main statement: `Text.statements_splice`.
-/

namespace Rehome

/-- The statement when `old` bytes in front of it have given way to `new` bytes. -/
def Statement.shift (old new : Nat) (statement : Statement) : Statement :=
  ⟨statement.toImport, statement.start - old + new, statement.stop - old + new⟩

namespace Text

variable {text : Text} {k : Nat} {old : Statement} {found : Import}

/-- Pieces that begin elsewhere have their statements moved by as much. -/
lemma statementsFrom_shift {start old : Nat} (le : old ≤ start) (new : Nat) (pieces : List Piece) :
    statementsFrom (start - old + new) pieces =
      (statementsFrom start pieces).map (Statement.shift old new) := by
  induction pieces generalizing start with
  | nil => rfl
  | cons piece rest ih =>
    cases piece with
    | gap c =>
      have next : start - old + new + c.utf8Size = start + c.utf8Size - old + new := by omega
      rw [statementsFrom, statementsFrom, next]
      exact ih (by omega)
    | statement own found =>
      have next : start - old + new + byteSize own = start + byteSize own - old + new := by omega
      rw [statementsFrom, statementsFrom, List.map_cons, next, Statement.shift]
      exact congrArg _ (ih (by omega))

/-- A statement with the pieces around it, which hold the statements before it and behind it. -/
lemma exists_pieces_of_getElem? (here : text.statements[k]? = some old) :
    ∃ before own after, text.pieces = before ++ .statement own old.toImport :: after ∧
      old.start = byteSize (ofPieces before) ∧ old.stop = old.start + byteSize own ∧
        text.statements.take k = statementsFrom 0 before ∧
        text.statements.drop (k + 1) = statementsFrom old.stop after := by
  obtain ⟨inside, eq⟩ := List.getElem?_eq_some_iff.1 here
  have whole : text.statements = text.statements.take k ++ old :: text.statements.drop (k + 1) := by
    rw [← eq, List.getElem_cons_drop, List.take_append_drop]
  obtain ⟨before, own, after, pieces, front, start, stop⟩ := exists_of_statementsFrom_eq whole
  rw [Nat.zero_add] at start
  have parts : text.statements = statementsFrom 0 before ++ old :: statementsFrom old.stop after := by
    rw [stop, start, statements, pieces, statementsFrom_append, Nat.zero_add, statementsFrom, ← start,
      ← stop]
  have back := parts.symm.trans whole
  rw [front, List.append_cancel_left_eq] at back
  exact ⟨before, own, after, pieces, start, stop, front, (List.cons.inj back).2.symm⟩

/-- An import that is written over a statement is read in its place. The statements before it stay
as they are, and those behind it move by the difference of the sizes. -/
theorem statements_splice (here : text.statements[k]? = some old) (writable : found.Writable) :
    (text.splice old.start old.stop found.render).statements =
        text.statements.take k ++ ⟨found, old.start, old.start + found.render.byteSize⟩ ::
          (text.statements.drop (k + 1)).map
            (Statement.shift (old.stop - old.start) found.render.byteSize) ∧
      old.start ≤ old.stop ∧ ∀ later ∈ text.statements.drop (k + 1), old.stop ≤ later.start := by
  obtain ⟨before, own, after, pieces, start, stop, front, back⟩ := exists_pieces_of_getElem? here
  have replaced := pieces_replace pieces writable
  have width : old.stop - old.start ≤ old.stop := Nat.sub_le _ _
  have next : old.stop - (old.stop - old.start) = old.start := by omega
  have moved := statementsFrom_shift width found.render.byteSize after
  rw [next, ← back] at moved
  refine ⟨?_, by omega, ?_⟩
  · rw [← moved, front, stop, start, eq_of_pieces_eq pieces, splice_append, statements, replaced,
      statementsFrom_append, Nat.zero_add, statementsFrom]
  · intro later mem
    rw [back] at mem
    rw [List.append_cons] at pieces
    have size : old.stop = byteSize (ofPieces (before ++ [.statement own old.toImport])) := by
      simp [stop, start, Piece.text]
    rw [size] at mem ⊢
    exact (start_lt_stop pieces mem).1

/-- Neither a word in front that begins no import nor an import right behind gets in the way, and a
name may begin like an import itself. -/
theorem statements_splice_adjacent :
    let text : Text := "import \x7b x import \x7b Ä \x7d from 'ä' ;".toList ++
      "import\t\x7bB\x7d from \"b\"import \x7bC\x7d from 'c'".toList
    let first : Statement := ⟨⟨["x import \x7b Ä".toList], "ä".toList⟩, 0, 36⟩
    let old : Statement := ⟨⟨["B".toList], "b".toList⟩, 36, 55⟩
    let found : Import := ⟨["import \x7b".toList, "é".toList], "m".toList⟩
    text.statements[1]? = some old ∧ found.Writable ∧
      (text.splice old.start old.stop found.render).statements =
        [first, ⟨found, 36, 69⟩, ⟨⟨["C".toList], "c".toList⟩, 69, 88⟩] := by
  intro text first old found
  have here : text.statements[1]? = some old := by decide +kernel
  have writable : found.Writable := ⟨by decide, by decide⟩
  exact ⟨here, writable, (statements_splice here writable).1.trans (by decide +kernel)⟩

end Text

end Rehome
