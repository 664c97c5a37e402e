import Rehome.Proofs.Import.Grammar
import Rehome.Proofs.Rewrite.Table

/-!
# Texts that begin with the directive

A text begins with the client directive if nothing but blanks stands before it. A new import belongs
right behind it then. Since the single-quoted spelling is searched through the whole text before the
other one is tried, that is not so if the text begins with the other one. Main statement: a rule
writes the new import right behind the directive exactly if the text begins with the single-quoted
spelling, or has none of it (`Rule.apply_behind_leading`).
-/

namespace Rehome

namespace Text

lemma find?_eq_none_iff {needle text : Text} : find? needle text = none ↔ ¬ needle <:+: text := by
  induction text with
  | nil =>
    rw [find?, List.infix_nil]
    split <;> simp [*]
  | cons c text ih =>
    have here : (after? needle (c :: text)).isSome ↔ needle <+: c :: text := by
      rw [Option.isSome_iff_exists]
      exact exists_congr fun rest => after?_eq_some.trans eq_comm
    rw [find?, List.infix_cons_iff, not_or, ← here, ← ih]
    split <;> simp [*]

/-- A search goes over what has not the first character of what is sought. -/
lemma find?_append {c : Char} {front : Text} (free : c ∉ front) (word rest : Text) :
    find? (c :: word) (front ++ (c :: word) ++ rest) = some (byteSize front) := by
  induction front with
  | nil =>
    have here : after? (c :: word) (c :: (word ++ rest)) = some rest := after?_eq_some.2 rfl
    simp [find?, here]
  | cons d front ih =>
    rw [List.mem_cons, not_or] at free
    have none : after? (c :: word) (d :: (front ++ (c :: word) ++ rest)) = none := by
      rw [after?, if_neg free.1]
    rw [List.cons_append, List.cons_append, find?, none, ih free.2]
    rfl

end Text

namespace Placement

open Text

/-- Where the directive is known, so is the text with a new line behind it. -/
lemma insert_of_directive? {front spelling rest : Text}
    (h : directive? (front ++ spelling ++ rest) =
      some (byteSize front, byteSize front + byteSize spelling)) (line : Text) :
    insert (front ++ spelling ++ rest) line = front ++ spelling ++ rest.closing.1 ++
      (rest.closing.2.lineBreak ++ (line ++ rest.closing.2)) := by
  have whole : front ++ spelling ++ rest =
      (front ++ spelling ++ rest.closing.1) ++ rest.closing.2 := by
    rw [List.append_assoc (front ++ spelling), ← closing_append]
  have point : point? (front ++ spelling ++ rest) =
      some (byteSize (front ++ spelling ++ rest.closing.1)) := by
    rw [point?, h, Option.map_some]
    dsimp only
    rw [← byteSize_append, dropBytes_byteSize_append, closingSize_eq, ← byteSize_append]
  rw [whole] at point ⊢
  exact insert_of_point? point line

/-- The single-quoted spelling counts if the text has it, and else the other one. -/
lemma directive?_of_quoted {text : Text} (inside : "'use client'".toList <:+: text) :
    ∃ front rest, text = front ++ "'use client'".toList ++ rest ∧ directive? text =
      some (byteSize front, byteSize front + byteSize "'use client'".toList) := by
  cases found : find? "'use client'".toList text with
  | none => exact absurd inside (find?_eq_none_iff.1 found)
  | some start =>
    obtain ⟨front, rest, whole, rfl⟩ := find?_eq_some found
    refine ⟨front, rest, whole, ?_⟩
    rw [directive?, spellings, List.findSome?_cons, found, Option.map_some]

lemma directive?_of_unquoted {text : Text} (none : ¬ "'use client'".toList <:+: text) :
    directive? text = (find? "\"use client\"".toList text).map fun start =>
      (start, start + byteSize "\"use client\"".toList) := by
  rw [directive?, spellings, List.findSome?_cons, find?_eq_none_iff.2 none, Option.map_none]
  exact List.findSome?_singleton

/-- The directive that a text begins with is found, unless the other spelling goes first. -/
lemma directive?_leading {lead spelling rest : Text} (blank : ∀ c ∈ lead, isBlank c)
    (mem : spelling ∈ spellings)
    (first : spelling = "'use client'".toList ∨
      ¬ "'use client'".toList <:+: lead ++ spelling ++ rest) :
    directive? (lead ++ spelling ++ rest) =
      some (byteSize lead, byteSize lead + byteSize spelling) := by
  have free : ∀ {c : Char}, isBlank c = false → c ∉ lead := fun solid mem => by
    rw [blank _ mem] at solid
    cases solid
  by_cases single : spelling = "'use client'".toList
  · have found : find? "'use client'".toList (lead ++ "'use client'".toList ++ rest) =
        some (byteSize lead) := find?_append (free (c := '\'') rfl) "use client'".toList rest
    rw [directive?, spellings, List.findSome?_cons, single, found, Option.map_some]
  · have double : spelling = "\"use client\"".toList := by
      simp only [spellings, List.mem_cons, List.not_mem_nil, or_false] at mem
      exact mem.resolve_left single
    have found := find?_append (free (c := '"') rfl) "use client\"".toList rest
    rw [directive?_of_unquoted (first.resolve_left single), double]
    exact congrArg _ found

/-- No import begins in the directive or in blanks before it. -/
lemma pieces_leading {lead spelling : Text} (blank : ∀ c ∈ lead, isBlank c)
    (mem : spelling ∈ spellings) (rest : Text) :
    pieces (lead ++ spelling ++ rest) = (lead ++ spelling).map .gap ++ rest.pieces := by
  have free : 'i' ∉ lead := fun mem => absurd (blank _ mem) (by decide)
  obtain ⟨front, back, rfl, free', free''⟩ : ∃ front back : Text,
      spelling = front ++ 'i' :: 'e' :: back ∧ 'i' ∉ front ∧ 'i' ∉ 'e' :: back := by
    simp only [spellings, List.mem_cons, List.not_mem_nil, or_false] at mem
    rcases mem with rfl | rfl
    · exact ⟨"'use cl".toList, "nt'".toList, rfl, by decide, by decide⟩
    · exact ⟨"\"use cl".toList, "nt\"".toList, rfl, by decide, by decide⟩
  have word : Import.read? ('i' :: ('e' :: back ++ rest)) = none := rfl
  have before : 'i' ∉ lead ++ front := by
    rw [List.mem_append]
    exact not_or_intro free free'
  have whole : lead ++ (front ++ 'i' :: 'e' :: back) ++ rest =
      (lead ++ front) ++ 'i' :: ('e' :: back ++ rest) := by simp
  rw [whole, pieces_append_of_notMem _ before, pieces_of_gap word, pieces_append_of_notMem _ free'']
  simp

end Placement

/-- Taking a type out leaves what stands before all imports. -/
lemma Rule.exists_left_append {rule : Rule} {front rest : Text}
    (gaps : Text.pieces (front ++ rest) = front.map .gap ++ rest.pieces) :
    ∃ rest', rule.left (front ++ rest) = front ++ rest' := by
  cases first : Text.importOf? (front ++ rest) rule.home with
  | none => exact ⟨rest, left_of_none first⟩
  | some statement =>
    obtain ⟨before, own, after, pieces, start, stop, -, -⟩ :=
      Text.exists_of_importOf?_eq_some first
    obtain ⟨more, rfl⟩ : ∃ more, before = front.map .gap ++ more := by
      rcases List.append_eq_append_iff.1 (gaps.symm.trans pieces) with
        ⟨more, eq, -⟩ | ⟨more, eq, eq'⟩
      · exact ⟨more, eq⟩
      · cases more with
        | nil => exact ⟨[], by simp [eq]⟩
        | cons piece more =>
          obtain ⟨rfl, -⟩ := List.cons.inj eq'
          have mem : Piece.statement own statement.toImport ∈ front.map Piece.gap := by simp [eq]
          simp at mem
    rw [left_of_some first, Text.withdraw, Text.splice_statement pieces start stop,
      Text.ofPieces_append, Text.ofPieces_map_gap, List.append_assoc, List.append_assoc]
    exact ⟨_, rfl⟩

namespace Placement

open Text

/-- The other spelling has no single quote, nor has what stands before it or closes it. -/
lemma notMem_of_double {lead spelling : Text} (blank : ∀ c ∈ lead, isBlank c)
    (mem : spelling ∈ spellings) (other : spelling ≠ "'use client'".toList) (rest : Text) :
    '\'' ∉ lead ++ spelling ++ rest.closing.1 := by
  simp only [spellings, List.mem_cons, List.not_mem_nil, or_false] at mem
  rw [mem.resolve_left other, List.mem_append, List.mem_append]
  rintro ((mem | mem) | mem)
  · exact absurd (blank _ mem) (by decide)
  · exact absurd mem (by decide)
  · exact absurd (mem_closing mem) (by decide)

/-- A line that is written in front of the single-quoted spelling does not lead to the same text as
behind it: what comes last of the two has its own quote at the end. -/
lemma insert_ne_insert {front gap shut feed feed' line after : Text}
    (ends : ∃ init, line = init ++ ['"', ';']) (free : ∀ c ∈ shut, isQuote c = false) :
    front ++ (feed ++ (line ++ (gap ++ "'use client'".toList ++ shut ++ after))) ≠
      front ++ gap ++ "'use client'".toList ++ shut ++ (feed' ++ (line ++ after)) := by
  intro same
  obtain ⟨init, eq⟩ := ends
  have whole : front ++ ((feed ++ line ++ gap ++ "'use client".toList) ++ '\'' :: shut ++ after) =
      front ++ ((gap ++ "'use client'".toList ++ shut ++ feed' ++ init) ++ '"' :: [';'] ++ after) := by
    simpa [eq] using same
  have last := List.append_cancel_right (List.append_cancel_left whole)
  obtain ⟨rest, -⟩ := last_quote_unique last rfl rfl free (List.forall_mem_singleton.2 rfl)
  rw [rest] at last
  exact absurd (List.cons.inj (List.append_cancel_left last)).1 (by decide)

/-- Where the single-quoted spelling stands behind a part without single quotes, no line is written
right behind that part. -/
lemma insert_ne_of_quoted {front after line : Text} (free : '\'' ∉ front)
    (inside : "'use client'".toList <:+: front ++ after) (ends : ∃ init, line = init ++ ['"', ';']) :
    insert (front ++ after) line ≠ front ++ (after.lineBreak ++ (line ++ after)) := by
  obtain ⟨lead, back, split, found⟩ := directive?_of_quoted inside
  obtain ⟨gap, rfl, tail⟩ : ∃ gap, lead = front ++ gap ∧
      after = gap ++ "'use client'".toList ++ back := by
    have meets : front ++ after = lead ++ '\'' :: ("use client'".toList ++ back) := by
      rw [split, List.append_assoc lead]
      rfl
    rcases append_eq_append_cons meets with ⟨more, eq⟩ | ⟨gap, eq, tail⟩
    · exact absurd (by rw [eq]; simp) free
    · refine ⟨gap, eq, ?_⟩
      rw [tail, List.append_assoc gap]
      rfl
  intro same
  rw [back.closing_append, ← List.append_assoc] at tail
  rw [split] at same found
  rw [insert_of_directive? found, tail] at same
  refine insert_ne_insert ends (fun c closes => ?_) same.symm
  rcases mem_closing closes with space | rfl
  · exact Seam.not_isQuote_of_isSpace space
  · rfl

end Placement

/-- A rule that moves its type writes a new import right behind the directive that the text begins
with, and behind the semicolon that closes it, exactly if that is the single-quoted spelling or what
is left of the text has none of it. -/
theorem Rule.apply_behind_leading {rule : Rule} {destination text lead spelling rest : Text}
    (blank : ∀ c ∈ lead, isBlank c) (mem : spelling ∈ Placement.spellings)
    (begins : text = lead ++ spelling ++ rest)
    (moved : (rule.apply destination text).effect = .moved)
    (none : (rule.left text).importOf? destination = none) :
    ∃ shut after, rule.left text = lead ++ spelling ++ shut ++ after ∧ Import.Closes shut after ∧
      ((rule.apply destination text).text = lead ++ spelling ++ shut ++ (after.lineBreak ++
          (Import.render ⟨[rule.typeName], destination⟩ ++ after)) ↔
        spelling = "'use client'".toList ∨ ¬ "'use client'".toList <:+: rule.left text) := by
  subst begins
  obtain ⟨rest', left⟩ := rule.exists_left_append (Placement.pieces_leading blank mem rest)
  obtain ⟨-, -, -, apply⟩ := rule.exists_of_apply_moved moved
  have closes := rest'.closing_append
  have whole : rule.left (lead ++ spelling ++ rest) =
      lead ++ spelling ++ rest'.closing.1 ++ rest'.closing.2 := by
    rw [left, List.append_assoc (lead ++ spelling), ← closes]
  refine ⟨rest'.closing.1, rest'.closing.2, whole, Import.closes_iff.2 (by rw [← closes]), ?_⟩
  rw [apply, Text.enlist, none]
  dsimp only
  constructor
  · intro same
    by_contra other
    rw [not_or, not_not] at other
    have quoteless := Placement.notMem_of_double blank mem other.1 rest'
    rw [whole] at same other
    exact Placement.insert_ne_of_quoted quoteless other.2 ⟨_, Import.render_eq _⟩ same
  · intro first
    rw [left] at first ⊢
    exact Placement.insert_of_directive? (Placement.directive?_leading blank mem first) _

/-- A blank may stand before the other spelling, and behind it before the semicolon. -/
theorem Rule.apply_behind_leading_double :
    let lead : Text := "\n".toList
    let spelling : Text := "\"use client\"".toList
    let rest : Text := " ;\nimport \x7b Order \x7d from '@/utils/orderStorage'\n".toList
    let rule : Rule := ⟨"Order".toList, "@/utils/orderStorage".toList⟩
    let destination : Text := "@/types".toList
    let text : Text := lead ++ spelling ++ rest
    (∀ c ∈ lead, isBlank c) ∧ spelling ∈ Placement.spellings ∧
      (rule.apply destination text).effect = .moved ∧
      (rule.left text).importOf? destination = none ∧
      ¬ "'use client'".toList <:+: rule.left text ∧
      ∃ shut after, rule.left text = lead ++ spelling ++ shut ++ after ∧ Import.Closes shut after ∧
        (rule.apply destination text).text = lead ++ spelling ++ shut ++ (after.lineBreak ++
          (Import.render ⟨[rule.typeName], destination⟩ ++ after)) := by
  intro lead spelling rest rule destination text
  have blank : ∀ c ∈ lead, isBlank c := List.forall_mem_singleton.2 rfl
  have mem : spelling ∈ Placement.spellings := by decide
  have moved : (rule.apply destination text).effect = .moved := by decide +kernel
  have none : (rule.left text).importOf? destination = none := by decide +kernel
  have alone : ¬ "'use client'".toList <:+: rule.left text := by decide +kernel
  obtain ⟨shut, after, left, closes, exactly⟩ :=
    @Rule.apply_behind_leading rule destination text lead spelling rest blank mem rfl moved none
  exact ⟨blank, mem, moved, none, alone, shut, after, left, closes, exactly.2 (.inr alone)⟩

/-- A comment that quotes the directive with single quotes takes the new import in. -/
theorem Rule.apply_behind_leading_in_comment :
    let spelling : Text := "\"use client\"".toList
    let comment : Text := "\n// without 'use client' the server renders this\n".toList
    let text : Text :=
      spelling ++ ";\nimport \x7b Order \x7d from '@/utils/orderStorage';".toList ++ comment
    let rule : Rule := ⟨"Order".toList, "@/utils/orderStorage".toList⟩
    let destination : Text := "@/types".toList
    let after : Text := "\n".toList ++ comment
    spelling ∈ Placement.spellings ∧ (rule.apply destination text).effect = .moved ∧
      (rule.left text).importOf? destination = none ∧
      rule.left text = spelling ++ [';'] ++ after ∧ Import.Closes [';'] after ∧
      (rule.apply destination text).text ≠ spelling ++ [';'] ++ (after.lineBreak ++
        (Import.render ⟨[rule.typeName], destination⟩ ++ after)) := by
  intro spelling comment text rule destination after
  have closes : Import.Closes [';'] after := .semicolon (List.forall_mem_nil _)
  exact ⟨by decide, by decide +kernel, by decide +kernel, by decide +kernel, closes,
    by decide +kernel⟩

end Rehome
