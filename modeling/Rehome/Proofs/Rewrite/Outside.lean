import Mathlib.Data.List.InsertIdx
import Rehome.Proofs.Import.Tidy
import Rehome.Proofs.Rewrite.Table

/-!
# Outside the imports

What a tidy text has outside its imports belongs to the user. Main statement: a pass leaves it as it
is, apart from one line break where the first import of the destination is written, and leaves the
text tidy (`Rules.outside_rewrite`).
-/

namespace Rehome

namespace Text

/-- The characters between imports. -/
def gapsIn (pieces : List Piece) : Text :=
  pieces.filterMap fun
    | .statement _ _ => none
    | .gap c => some c

/-- What is left of a text when its imports are cut out. -/
def outside (text : Text) : Text :=
  gapsIn text.pieces

/-- The second text has one line break more than the first. -/
def LineAdded (old new : Text) : Prop :=
  ∃ front back, old = front ++ back ∧
    (new = front ++ '\n' :: back ∨ new = front ++ '\r' :: '\n' :: back)

@[simp] lemma gapsIn_nil : gapsIn [] = [] := rfl

@[simp] lemma gapsIn_gap (c : Char) (rest : List Piece) :
    gapsIn (.gap c :: rest) = c :: gapsIn rest := rfl

@[simp] lemma gapsIn_statement (text : Text) (found : Import) (rest : List Piece) :
    gapsIn (.statement text found :: rest) = gapsIn rest := rfl

@[simp] lemma gapsIn_append (front back : List Piece) :
    gapsIn (front ++ back) = gapsIn front ++ gapsIn back :=
  List.filterMap_append

@[simp] lemma gapsIn_map_gap (text : Text) : gapsIn (text.map .gap) = text := by
  induction text with
  | nil => rfl
  | cons c text ih => exact congrArg (c :: ·) ih

@[simp] lemma gapsIn_map_written (table : List Import) : gapsIn (table.map .written) = [] := by
  induction table with
  | nil => rfl
  | cons found table ih => exact ih

lemma lineAdded_lineBreak (front back text : Text) :
    LineAdded (front ++ back) (front ++ (text.lineBreak ++ back)) := by
  refine ⟨front, back, rfl, ?_⟩
  rcases Placement.lineBreak_eq text with eq | eq
  · rw [eq]
    exact .inl rfl
  · rw [eq]
    exact .inr rfl

end Text

namespace Table

/-- An edit of one module's entry neither adds nor takes away another module. -/
lemma exists_revise_iff {module other : Text} {f : Import → List Import} {table : List Import}
    (apart : module ≠ other) (keeps : ∀ found, ∀ new ∈ f found, new.module = found.module) :
    (∃ found ∈ revise module f table, found.module = other) ↔
      ∃ found ∈ table, found.module = other := by
  rcases revise_cases module f table with ⟨-, eq⟩ | ⟨front, found, back, rfl, rfl, -, eq⟩
  · rw [eq]
  · have none : ¬ ∃ new ∈ f found, new.module = other := by
      rintro ⟨new, mem, same⟩
      exact apart ((keeps found new mem).symm.trans same)
    rw [eq]
    simp only [List.mem_append, List.mem_cons, or_and_right, exists_or, exists_eq_left, none,
      apart, false_or]

/-- An entry that is edited and not taken away keeps its module in the table. -/
lemma exists_revise_self {module : Text} {f : Import → Import} {table : List Import}
    (keeps : ∀ found, (f found).module = found.module)
    (h : ∃ found ∈ table, found.module = module) :
    ∃ found ∈ revise module (fun found => [f found]) table, found.module = module := by
  rcases revise_cases module (fun found => [f found]) table with
    ⟨none, -⟩ | ⟨front, found, back, -, same, -, eq⟩
  · obtain ⟨found, mem, same⟩ := h
    exact absurd same (none found mem)
  · rw [eq]
    exact ⟨f found, by simp, (keeps found).trans same⟩

@[simp] lemma module_including (found : Import) (name : Text) :
    (found.including name).module = found.module := by
  rw [Import.including]
  split <;> rfl

lemma exists_enlist {typeName destination : Text} {slot : Nat} {table : List Import}
    (h : slot ≤ table.length) :
    ∃ found ∈ enlist typeName destination slot table, found.module = destination := by
  rw [enlist]
  split
  case isTrue listed => exact exists_revise_self (fun found => module_including found _) listed
  case isFalse => exact ⟨_, (List.mem_insertIdx h).2 (.inl rfl), rfl⟩

lemma module_of_mem_without {found new : Import} {name : Text} (h : new ∈ found.without name) :
    new.module = found.module := by
  rw [Import.eq_of_mem_without h]

/-- An edit keeps a property of every entry if it keeps it of those that it edits. -/
lemma forall_mem_revise {module : Text} {f : Import → List Import} {table : List Import}
    {P : Import → Prop} (all : ∀ found ∈ table, P found)
    (keeps : ∀ found, found.module = module → P found → ∀ new ∈ f found, P new) :
    ∀ new ∈ revise module f table, P new := by
  intro new mem
  obtain ⟨found, within, rfl | ⟨same, edit⟩⟩ := mem_revise mem
  · exact all new within
  · exact keeps found same (all found within) new edit

lemma forall_mem_enlist {typeName destination : Text} {slot : Nat} {table : List Import}
    {P : Import → Prop} (all : ∀ found ∈ table, P found)
    (keeps : ∀ found, P found → P (found.including typeName))
    (fresh : P ⟨[typeName], destination⟩) :
    ∀ new ∈ enlist typeName destination slot table, P new := by
  rw [enlist]
  split
  case isTrue =>
    refine forall_mem_revise all fun found _ holds new mem => ?_
    cases List.mem_singleton.1 mem
    exact keeps found holds
  case isFalse =>
    intro new mem
    rcases List.eq_or_mem_of_mem_insertIdx mem with rfl | mem
    · exact fresh
    · exact all new mem

lemma exists_withdraw_iff {rule : Rule} {other : Text} {table : List Import}
    (apart : rule.home ≠ other) :
    (∃ found ∈ withdraw rule table, found.module = other) ↔
      ∃ found ∈ table, found.module = other :=
  exists_revise_iff apart fun _ _ mem => module_of_mem_without mem

end Table

namespace Import.Plain

lemma of_mem_without {found new : Import} {name : Text} (plain : found.Plain)
    (h : new ∈ found.without name) : new.Plain := by
  rw [Import.eq_of_mem_without h]
  exact fun n mem => plain n (List.mem_of_mem_erase mem)

lemma including {found : Import} {name : Text} (plain : found.Plain)
    (free : ∀ spelling ∈ Placement.spellings, ¬ spelling <:+: name) :
    (found.including name).Plain := by
  rw [Import.including]
  split
  · exact plain
  · intro n mem
    rcases List.mem_append.1 mem with mem | mem
    · exact plain n mem
    · cases List.mem_singleton.1 mem
      exact free

end Import.Plain

/-! ### One rule -/

namespace Orderly

open Text

variable {homes : List Text} {text : Text}

/-- Where the last name of an import of a home goes, nothing straddles the place that is left. -/
lemma not_straddled_left {rule : Rule} {statement : Statement} (h : Orderly homes text.pieces)
    (home : rule.home ∈ homes) (first : text.importOf? rule.home = some statement)
    (none : statement.names.erase rule.typeName = []) :
    ¬ (rule.left text).Straddled statement.start := by
  obtain ⟨before, own, after, pieces, start, stop, same, -⟩ := exists_of_importOf?_eq_some first
  have cut := h.boundary pieces (same ▸ home)
  rw [Boundary] at cut
  have apart := not_straddled cut
  rw [Rule.left_of_some first, withdraw, splice_statement pieces start stop, none, start]
  simpa using apart

/-- The pieces of an orderly text before and after a type is taken out of the first import of its
home. -/
lemma pieces_left {rule : Rule} {statement : Statement} (h : Orderly homes text.pieces)
    (home : rule.home ∈ homes) (first : text.importOf? rule.home = some statement) :
    ∃ before own after, text.pieces = before ++ .statement own statement.toImport :: after ∧
      statement.module = rule.home ∧ (rule.left text).pieces =
        before ++ (statement.toImport.without rule.typeName).map .written ++ after := by
  obtain ⟨before, own, after, pieces, start, stop, same, -⟩ := exists_of_importOf?_eq_some first
  refine ⟨before, own, after, pieces, same, ?_⟩
  have left := Rule.left_of_some first
  rw [left]
  refine pieces_withdraw pieces start stop fun none => ?_
  rw [← left]
  exact h.not_straddled_left home first none

/-- Taking out a type leaves an orderly text orderly and keeps what is outside the imports. -/
lemma left {rule : Rule} (h : Orderly homes text.pieces) (home : rule.home ∈ homes) :
    Orderly homes (rule.left text).pieces ∧ (rule.left text).outside = text.outside := by
  cases first : text.importOf? rule.home with
  | none =>
    rw [Rule.left_of_none first]
    exact ⟨h, rfl⟩
  | some statement =>
    obtain ⟨before, own, after, pieces, same, left⟩ := h.pieces_left home first
    rw [outside, outside, left]
    rw [pieces] at h ⊢
    refine ⟨?_, by simp⟩
    rw [Import.without]
    split
    case h_1 => simpa using h.remove (same ▸ home)
    case h_2 =>
      rw [List.map_singleton, List.append_assoc]
      refine h.replace ?_
      rfl

/-- Listing a type leaves an orderly text orderly if no import is broken off; what is outside the
imports gains a line break exactly if the destination had no import. -/
lemma enlist {typeName destination : Text} (h : Orderly homes text.pieces)
    (isName : Import.IsName typeName) (isModule : Import.IsModule destination)
    (away : destination ∉ homes)
    (unbroken : text.importOf? destination = none → Placement.Unbroken text) :
    Orderly homes (text.enlist typeName destination).pieces ∧
      if text.importOf? destination = none then
        LineAdded text.outside (text.enlist typeName destination).outside
      else (text.enlist typeName destination).outside = text.outside := by
  cases found : text.importOf? destination with
  | some statement =>
    rw [if_neg (by simp)]
    obtain ⟨before, own, after, pieces, same, -, ⟨-, kept⟩ | ⟨-, edited⟩⟩ :=
      pieces_enlist_of_some isName found
    · rw [kept]
      exact ⟨h, rfl⟩
    · rw [outside, outside, edited]
      rw [pieces] at h ⊢
      refine ⟨h.replace ?_, ?_⟩
      · exact Table.module_including _ _
      · simp [Piece.written]
  | none =>
    rw [if_pos rfl]
    rw [outside, outside]
    rcases pieces_enlist_of_none isName isModule (unbroken found) found with
      ⟨-, inserted⟩ | ⟨front, back, pieces, -, seam, inserted⟩
    · rw [inserted]
      refine ⟨h.insert_first text away, ?_⟩
      have added := lineAdded_lineBreak [] (gapsIn text.pieces) text
      simpa [Piece.written] using added
    · rw [inserted]
      rw [pieces] at h ⊢
      refine ⟨h.insert (h.guarded.of_seam seam) _ away, ?_⟩
      have added := lineAdded_lineBreak (gapsIn front) (gapsIn back) (ofPieces back)
      simpa [Piece.written] using added

lemma table_left {rule : Rule} (h : Orderly homes text.pieces) (home : rule.home ∈ homes) :
    (rule.left text).table = Table.withdraw rule text.table :=
  Table.table_left fun _ first none => h.not_straddled_left home first none

lemma importOf?_left_eq_none_iff {rule : Rule} {destination : Text} (h : Orderly homes text.pieces)
    (home : rule.home ∈ homes) (away : destination ∉ homes) :
    (rule.left text).importOf? destination = none ↔ text.importOf? destination = none := by
  have foreign : rule.home ≠ destination := fun eq => away (eq ▸ home)
  have table : (rule.left text).table = Table.withdraw rule text.table := h.table_left home
  have same := @Table.exists_withdraw_iff rule destination text.table foreign
  rw [importOf?_eq_none_iff, importOf?_eq_none_iff, table]
  simpa using not_congr same

end Orderly

/-- Where a type is listed, the destination has an import. -/
lemma Text.importOf?_enlist_ne_none {text typeName destination : Text}
    (isName : Import.IsName typeName) (isModule : Import.IsModule destination)
    (unbroken : text.importOf? destination = none → Placement.Unbroken text) :
    (text.enlist typeName destination).importOf? destination ≠ none := by
  rw [Ne, importOf?_eq_none_iff, Table.table_enlist isName isModule unbroken]
  obtain ⟨found, mem, same⟩ := Table.exists_enlist (Placement.slot_le text)
  exact fun others => others found mem same

namespace Tidy

open Text

variable {homes : List Text} {text : Text}

/-- Taking out a type leaves a tidy text tidy and keeps what is outside the imports. -/
lemma left {rule : Rule} (h : Tidy homes text.pieces) (home : rule.home ∈ homes) :
    Tidy homes (rule.left text).pieces ∧ (rule.left text).outside = text.outside := by
  obtain ⟨orderly, same⟩ := h.orderly.left home
  refine ⟨orderly.tidy ?_, same⟩
  rw [← table_eq, h.orderly.table_left home, table_eq]
  exact Table.forall_mem_revise h.plain fun _ _ plain _ mem => plain.of_mem_without mem

/-- Listing a type leaves a tidy text tidy; what is outside the imports gains a line break exactly
if the destination had no import. -/
lemma enlist {typeName destination : Text} (h : Tidy homes text.pieces)
    (isName : Import.IsName typeName) (isModule : Import.IsModule destination)
    (away : destination ∉ homes)
    (free : ∀ spelling ∈ Placement.spellings, ¬ spelling <:+: typeName) :
    Tidy homes (text.enlist typeName destination).pieces ∧
      if text.importOf? destination = none then
        LineAdded text.outside (text.enlist typeName destination).outside
      else (text.enlist typeName destination).outside = text.outside := by
  obtain ⟨orderly, grown⟩ := h.orderly.enlist isName isModule away fun _ => h.unbroken
  refine ⟨orderly.tidy ?_, grown⟩
  rw [← table_eq, Table.table_enlist isName isModule fun _ => h.unbroken, table_eq]
  refine Table.forall_mem_enlist h.plain (fun _ plain => plain.including free) fun name mem => ?_
  cases List.mem_singleton.1 mem
  exact free

/-- A name that is listed in a tidy text can be listed elsewhere. -/
lemma isName_of_mem {module name : Text} {statement : Statement} (h : Tidy homes text.pieces)
    (first : text.importOf? module = some statement) (own : name ∈ statement.names) :
    Import.IsName name ∧ ∀ spelling ∈ Placement.spellings, ¬ spelling <:+: name := by
  obtain ⟨before, own', after, pieces, -⟩ := exists_of_importOf?_eq_some first
  exact ⟨(writable_of_importOf? first).names _ own,
    h.plain statement.toImport (by simp [pieces]) _ own⟩

/-- A rule that moves its type leaves a tidy text tidy and edits its table. -/
lemma moved {rule : Rule} {destination : Text} {statement : Statement}
    (h : Tidy homes text.pieces) (isModule : Import.IsModule destination)
    (home : rule.home ∈ homes) (away : destination ∉ homes)
    (first : text.importOf? rule.home = some statement)
    (own : rule.typeName ∈ statement.names) :
    Tidy homes ((rule.left text).enlist rule.typeName destination).pieces ∧
      Placement.slot (rule.left text) ≤ (Table.withdraw rule text.table).length ∧
      ((rule.left text).enlist rule.typeName destination).table =
        Table.enlist rule.typeName destination (Placement.slot (rule.left text))
          (Table.withdraw rule text.table) := by
  obtain ⟨isName, plain⟩ := h.isName_of_mem first own
  obtain ⟨tidy, -⟩ := h.left home
  refine ⟨(tidy.enlist isName isModule away plain).1, ?_, ?_⟩
  · rw [← h.orderly.table_left home]
    exact Placement.slot_le _
  · rw [← h.orderly.table_left home]
    exact Table.table_enlist isName isModule fun _ => tidy.unbroken

end Tidy

/-! ### A pass -/

namespace Pass

open Text

/-- A pass that began at the text `start` has touched nothing outside the imports, apart from the
line of the first import of the destination. -/
structure Keeps (homes : List Text) (destination start : Text) (pass : Pass) : Prop where
  tidy : Tidy homes pass.text.pieces
  listed : pass.text.importOf? destination = none ↔
    start.importOf? destination = none ∧ pass.moved = []
  outside : if start.importOf? destination = none ∧ pass.moved ≠ [] then
      LineAdded start.outside pass.text.outside
    else pass.text.outside = start.outside

variable {homes : List Text} {destination start : Text} {pass : Pass}

lemma Keeps.step {rule : Rule} (h : Keeps homes destination start pass)
    (isModule : Import.IsModule destination) (away : destination ∉ homes)
    (home : rule.home ∈ homes) : Keeps homes destination start (step destination pass rule) := by
  rcases step_cases destination pass rule with
    ⟨eq, -⟩ | ⟨statement, first, mem, ⟨other, -, eq⟩ | ⟨-, eq⟩⟩
  · rw [eq]
    exact h
  · rw [eq]
    exact ⟨h.tidy, h.listed, h.outside⟩
  · rw [eq]
    obtain ⟨isName, free⟩ := h.tidy.isName_of_mem first mem
    obtain ⟨tidy, same⟩ := h.tidy.left home
    obtain ⟨tidy', grown⟩ := tidy.enlist isName isModule away free
    have still := h.tidy.orderly.importOf?_left_eq_none_iff home away
    have listed := importOf?_enlist_ne_none isName isModule fun _ => tidy.unbroken
    have before := h.outside
    rw [same] at grown
    refine ⟨tidy', by simp [listed], ?_⟩
    by_cases none : pass.text.importOf? destination = none
    -- the first type that moves, to a destination without an import
    · obtain ⟨origin, idle⟩ := h.listed.1 none
      rw [if_neg (by simp [idle])] at before
      rw [if_pos (still.2 none), before] at grown
      rw [if_pos ⟨origin, by simp⟩]
      exact grown
    · rw [if_neg (mt still.1 none)] at grown
      rw [grown]
      by_cases origin : start.importOf? destination = Option.none
      · have busy : pass.moved ≠ [] := fun idle => none (h.listed.2 ⟨origin, idle⟩)
        rw [if_pos ⟨origin, busy⟩] at before
        rw [if_pos ⟨origin, by simp⟩]
        exact before
      · rw [if_neg fun both => origin both.1] at before ⊢
        exact before

end Pass

namespace Rules

/-- A pass over a tidy text leaves it tidy and touches nothing outside the imports, apart from one
line break more if types moved and the destination had no import before. -/
theorem outside_rewrite {rules : Rules} {text : Text}
    (isModule : Import.IsModule rules.destination) (tidy : Tidy rules.homes text.pieces) :
    Tidy rules.homes (rules.rewrite text).text.pieces ∧
      if text.importOf? rules.destination = none ∧ (rules.rewrite text).moved ≠ [] then
        Text.LineAdded text.outside (rules.rewrite text).text.outside
      else (rules.rewrite text).text.outside = text.outside := by
  have keeps : Pass.Keeps rules.homes rules.destination text (rules.rewrite text) := by
    refine rewrite_induction (motive := fun _ => Pass.Keeps rules.homes rules.destination text)
      ?_ fun done pass rule rest all h => ?_
    · exact ⟨tidy, by simp, by simp⟩
    · have mem : rule ∈ rules.list := by simp [← all]
      exact h.step isModule rules.destination_notMem_homes (List.mem_map_of_mem mem)
  exact ⟨keeps.tidy, keeps.outside⟩

/-- One of two equal names moves behind the directive, and a whole import goes. -/
theorem outside_rewrite_behind_directive :
    let rules : Rules := ⟨"t".toList, [⟨"A".toList, "a".toList⟩, ⟨"C".toList, "c".toList⟩],
      by decide, by decide⟩
    let text : Text :=
      "'use client';\nimport \x7b A, A \x7d from 'a'\nimport x from 'y'\n".toList ++
        "import \x7b C \x7d from 'c';\n".toList
    Tidy rules.homes text.pieces ∧ (rules.rewrite text).moved = rules.list ∧
      Text.LineAdded text.outside (rules.rewrite text).text.outside := by
  intro rules text
  have isModule : Import.IsModule rules.destination := by decide
  have tidy : Tidy rules.homes text.pieces := by decide +kernel
  have fresh : text.importOf? rules.destination = none := by decide +kernel
  have moved : (rules.rewrite text).moved = rules.list := by decide +kernel
  have kept := (outside_rewrite isModule tidy).2
  rw [if_pos ⟨fresh, by rw [moved]; exact List.cons_ne_nil _ _⟩] at kept
  exact ⟨tidy, moved, kept⟩

end Rules

end Rehome
