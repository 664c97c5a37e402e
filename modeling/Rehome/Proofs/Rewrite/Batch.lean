import Rehome.Proofs.Rewrite.Gather

/-!
# A pass at once

A pass tries its rules one after another, each on the text that the one before it left. Where every
home has a single import, they do not get in each other's way. Main statement: what moves, what
clashes and which table is left can all be read off the table of the first text
(`Rules.rewrite_eq_batch`).
-/

namespace Rehome

namespace Rule

/-- The rule's home lists its type. -/
def Listed (rule : Rule) (table : List Import) : Prop :=
  ∃ found ∈ table, found.module = rule.home ∧ rule.typeName ∈ found.names

/-- No module besides home and destination lists the rule's type. -/
def Free (rule : Rule) (destination : Text) (table : List Import) : Prop :=
  ∀ found ∈ table, rule.typeName ∈ found.names →
    found.module = rule.home ∨ found.module = destination

/-- The rule's home lists its type, and so does no other module besides the destination. -/
def Moves (rule : Rule) (destination : Text) (table : List Import) : Prop :=
  rule.Listed table ∧ rule.Free destination table

instance (rule : Rule) (table : List Import) : Decidable (rule.Listed table) :=
  inferInstanceAs (Decidable (∃ found ∈ table, _ ∧ _))

instance (rule : Rule) (destination : Text) (table : List Import) :
    Decidable (rule.Free destination table) :=
  inferInstanceAs (Decidable (∀ found ∈ table, _ → _))

instance (rule : Rule) (destination : Text) (table : List Import) :
    Decidable (rule.Moves destination table) :=
  inferInstanceAs (Decidable (_ ∧ _))

/-- The first module besides home and destination that lists the rule's type. -/
def third? (rule : Rule) (destination : Text) (table : List Import) : Option Text :=
  (table.find? fun found => decide (found.module ≠ rule.home ∧ found.module ≠ destination ∧
    rule.typeName ∈ found.names)).map Import.module

/-- The clash that the rule meets if its home lists the type and a third module does too. -/
def clash? (rule : Rule) (destination : Text) (table : List Import) : Option Clash :=
  if rule.Listed table then
    (rule.third? destination table).map fun other => ⟨rule.typeName, rule.home, other⟩
  else none

end Rule

/-- The table that a pass leaves when the types of these rules move: they are gathered in the first
entry of the destination, or in a new one where the first of them put it. -/
def Text.batch (text destination : Text) : List Rule → List Import
  | [] => text.table
  | first :: others =>
    Table.gather destination (first :: others)
      (if ∃ found ∈ text.table, found.module = destination then text.table
      else (Table.withdraw first text.table).insertIdx (Placement.slot (first.left text))
        ⟨[], destination⟩)

namespace Table

/-- The modules that list a name, in order, apart from some. -/
def sources (apart : List Text) (name : Text) (table : List Import) : List Text :=
  (table.filter fun found => found.module ∉ apart ∧ name ∈ found.names).map Import.module

variable {apart : List Text} {destination name typeName home : Text} {rule : Rule}
  {table front back : List Import}

/-! ### Sources -/

@[simp] lemma sources_append :
    sources apart name (front ++ back) = sources apart name front ++ sources apart name back := by
  rw [sources, List.filter_append, List.map_append, sources, sources]

lemma sources_revise {module : Text} {f : Import → List Import}
    (keeps : ∀ found, found.module = module →
      sources apart name (f found) = sources apart name [found]) :
    sources apart name (revise module f table) = sources apart name table := by
  rcases revise_cases module f table with ⟨-, eq⟩ | ⟨front, found, back, rfl, same, -, eq⟩
  · rw [eq]
  · rw [eq, sources_append, sources_append, keeps found same, List.append_cons, sources_append,
      sources_append, List.append_assoc]

/-- A rule leaves the sources of all types but its own, and of that those besides its home. -/
lemma sources_withdraw (other : name ≠ rule.typeName ∨ rule.home ∈ apart) :
    sources apart name (withdraw rule table) = sources apart name table := by
  refine sources_revise fun found same => ?_
  rcases other with other | gone
  · have listed : name ∈ found.names.erase rule.typeName ↔ name ∈ found.names :=
      List.mem_erase_of_ne other
    rw [Import.without]
    cases names : found.names.erase rule.typeName with
    | nil =>
      have free : name ∉ found.names := by
        rw [← listed, names]
        exact List.not_mem_nil
      simp [sources, free]
    | cons first rest =>
      rw [names] at listed
      simp only [sources, List.filter_cons, listed]
      split <;> simp
  · rw [← same] at gone
    rw [Import.without]
    split <;> simp [sources, gone]

lemma sources_enlist {slot : Nat} (gone : destination ∈ apart) (h : slot ≤ table.length) :
    sources apart name (enlist typeName destination slot table) = sources apart name table := by
  rw [enlist]
  split
  case isTrue =>
    refine sources_revise fun found same => ?_
    rw [← same] at gone
    simp [sources, gone]
  case isFalse =>
    obtain ⟨front, back, rfl, inserted⟩ := exists_insertIdx h
    rw [inserted, sources_append, sources_append]
    simp [sources, gone]

/-! ### What rules find in a table -/

lemma listed_iff (away : rule.home ≠ destination) :
    rule.Listed table ↔ rule.home ∈ sources [destination] rule.typeName table := by
  simp only [Rule.Listed, sources, List.mem_map, List.mem_filter, decide_eq_true_eq,
    List.mem_singleton]
  constructor
  · rintro ⟨found, mem, same, listed⟩
    exact ⟨found, ⟨mem, fun eq => away (same.symm.trans eq), listed⟩, same⟩
  · rintro ⟨found, ⟨mem, -, listed⟩, same⟩
    exact ⟨found, mem, same, listed⟩

lemma third?_eq : rule.third? destination table =
    (sources [rule.home, destination] rule.typeName table).head? := by
  rw [Rule.third?, sources, List.head?_map, List.head?_filter]
  simp only [List.mem_cons, List.not_mem_nil, or_false, not_or, and_assoc, ne_eq]

lemma free_iff : rule.Free destination table ↔ rule.third? destination table = none := by
  rw [Rule.Free, Rule.third?, Option.map_eq_none_iff, List.find?_eq_none]
  refine forall_congr' fun found => forall_congr' fun _ => ?_
  simp only [decide_eq_true_eq]
  tauto

/-- What a rule asks of a text it finds in its table. -/
lemma rival?_eq {text : Text} : rule.rival? destination text =
    rule.third? destination text.table := by
  rw [Rule.rival?, Rule.third?, Text.table, List.find?_map, Option.map_map]
  rfl

/-- Where a home has one import, its first import is the one that lists the type. -/
lemma Single.listed_iff {text : Text} (h : Single rule.home text.table) :
    rule.Listed text.table ↔ ∃ statement, text.importOf? rule.home = some statement ∧
      rule.typeName ∈ statement.names := by
  constructor
  · rintro ⟨found, mem, same, listed⟩
    cases first : text.importOf? rule.home with
    | none => exact absurd same (Text.importOf?_eq_none_iff.1 first found mem)
    | some statement =>
      obtain ⟨before, own, after, pieces, -, -, same', others⟩ :=
        Text.exists_of_importOf?_eq_some first
      refine ⟨statement, rfl, ?_⟩
      rw [Text.table_eq, pieces, Text.importsIn_append, Text.importsIn_statement] at h mem
      rcases List.mem_append.1 mem with mem | mem
      · exact absurd same (others found mem)
      · rcases List.mem_cons.1 mem with rfl | mem
        · exact listed
        · exact absurd same (h.append_right.ne_of_mem_tail same' found mem)
  · rintro ⟨statement, first, listed⟩
    obtain ⟨before, own, after, pieces, -, -, same, -⟩ := Text.exists_of_importOf?_eq_some first
    refine ⟨statement.toImport, ?_, same, listed⟩
    rw [Text.table_eq, pieces]
    simp

/-! ### Single entries stay single -/

lemma sublist_revise {module : Text} {f : Import → List Import}
    (modules : ∀ found, ((f found).map Import.module).Sublist [found.module]) :
    ((revise module f table).map Import.module).Sublist (table.map Import.module) := by
  rcases revise_cases module f table with ⟨-, eq⟩ | ⟨front, found, back, rfl, -, -, eq⟩
  · rw [eq]
  · rw [eq, List.map_append, List.map_append, List.map_append, List.map_cons,
      ← List.singleton_append]
    exact ((modules found).append_right _).append_left _

lemma sublist_without (found : Import) :
    ((found.without typeName).map Import.module).Sublist [found.module] := by
  rw [Import.without]
  split
  · exact List.nil_sublist _
  · exact .refl _

lemma Single.withdraw (h : Single home table) : Single home (withdraw rule table) := by
  constructor
  · exact ((sublist_revise fun found => sublist_without found).count_le home).trans h.once
  · intro new mem same
    obtain ⟨found, mem, rfl | ⟨-, edit⟩⟩ := mem_revise mem
    · exact h.nodup new mem same
    · have nodup := h.nodup found mem ((module_of_mem_without edit).symm.trans same)
      rw [Import.eq_of_mem_without edit]
      exact nodup.erase _

lemma Single.enlist {slot : Nat} (h : Single home table) (away : home ≠ destination)
    (bound : slot ≤ table.length) : Single home (enlist typeName destination slot table) := by
  rw [Table.enlist]
  split
  case isTrue =>
    constructor
    · have modules : ∀ found : Import,
          ([found.including typeName].map Import.module).Sublist [found.module] := by
        intro found
        rw [List.map_singleton, module_including]
      exact ((sublist_revise modules).count_le home).trans h.once
    · intro new mem same
      obtain ⟨found, mem, rfl | ⟨foreign, edit⟩⟩ := mem_revise mem
      · exact h.nodup new mem same
      · cases List.mem_singleton.1 edit
        rw [module_including] at same
        exact absurd (same.symm.trans foreign) away
  case isFalse =>
    obtain ⟨front, back, rfl, inserted⟩ := exists_insertIdx bound
    rw [inserted]
    constructor
    · have once := h.once
      rw [List.map_append, List.count_append] at once ⊢
      rwa [List.map_cons, List.count_cons_of_ne (Ne.symm away)]
    · intro new mem same
      refine h.nodup new ?_ same
      rw [List.mem_append, List.mem_cons] at mem
      rw [List.mem_append]
      rcases mem with mem | rfl | mem
      · exact .inl mem
      · exact absurd same.symm away
      · exact .inr mem

/-! ### The first move -/

lemma not_listed_withdraw (single : Single rule.home table) (listed : rule.Listed table) :
    ¬ rule.Listed (withdraw rule table) := by
  rw [single.withdraw_eq_flatMap listed]
  rintro ⟨new, mem, same, listed⟩
  obtain ⟨found, -, edit⟩ := List.mem_flatMap.1 mem
  rw [eq_of_mem_drain edit] at same listed
  dsimp only at same listed
  have kept := (List.mem_filter.1 listed).2
  rw [same] at kept
  simp at kept

/-- The first type that moves gets an entry of its own if the destination has none. -/
lemma enlist_withdraw_of_absent {slot : Nat} (single : Single rule.home table)
    (listed : rule.Listed table) (bound : slot ≤ (withdraw rule table).length)
    (absent : ¬ ∃ found ∈ withdraw rule table, found.module = destination) :
    enlist rule.typeName destination slot (withdraw rule table) =
      gather destination [rule] ((withdraw rule table).insertIdx slot ⟨[], destination⟩) := by
  have gone := not_listed_withdraw single listed
  obtain ⟨front, back, eq, inserted⟩ := exists_insertIdx bound
  rw [enlist, if_neg absent, inserted, inserted]
  rw [eq] at absent gone
  have kept : ∀ part : List Import, (∀ found ∈ part, found ∈ front ++ back) →
      part.flatMap (Import.drain [rule]) = part := by
    intro part inside
    refine flatMap_drain_eq_self fun found mem name own held => gone ?_
    cases List.mem_singleton.1 held
    exact ⟨found, inside found mem, rfl, own⟩
  have others : ∀ other ∈ front, other.module ≠ destination := fun other mem same =>
    absent ⟨other, List.mem_append_left _ mem, same⟩
  have gathered := @gather_append [rule] front back ⟨[], destination⟩ others
  rw [kept front fun _ => List.mem_append_left _,
    kept back fun _ => List.mem_append_right _] at gathered
  exact gathered.symm

end Table

namespace Text

variable {text destination : Text} {rule first : Rule} {others : List Rule}

/-- The first type that moves is a batch of its own. -/
lemma enlist_withdraw_eq_batch (away : rule.home ≠ destination)
    (single : Table.Single rule.home text.table) (listed : rule.Listed text.table)
    (bound : Placement.slot (rule.left text) ≤ (Table.withdraw rule text.table).length) :
    Table.enlist rule.typeName destination (Placement.slot (rule.left text))
        (Table.withdraw rule text.table) = text.batch destination [rule] := by
  rw [batch]
  split
  case isTrue present =>
    have gathered := @Table.enlist_withdraw_gather destination [] rule text.table
      (Placement.slot (rule.left text)) away (by simp) present
    rw [Table.gather_nil] at gathered
    exact gathered single listed
  case isFalse absent =>
    refine Table.enlist_withdraw_of_absent single listed bound ?_
    exact mt (Table.exists_withdraw_iff away).1 absent

/-- The next type that moves is gathered with the others, whatever the slot. -/
lemma enlist_withdraw_batch {slot : Nat} (away : rule.home ≠ destination)
    (fits : Placement.slot (first.left text) ≤ (Table.withdraw first text.table).length)
    (fresh : rule.typeName ∉ (first :: others).map Rule.typeName)
    (single : Table.Single rule.home (text.batch destination (first :: others)))
    (listed : rule.Listed (text.batch destination (first :: others))) :
    Table.enlist rule.typeName destination slot
        (Table.withdraw rule (text.batch destination (first :: others))) =
      text.batch destination (first :: others ++ [rule]) := by
  refine Table.enlist_withdraw_gather away fresh ?_ single listed
  split
  case isTrue present => exact present
  case isFalse => exact ⟨_, (List.mem_insertIdx fits).2 (.inl rfl), rfl⟩

end Text

namespace Pass

/-- A pass that began at `text` has tried the rules `done` and found what they find there. -/
structure Follows (rules : Rules) (text : Text) (done : List Rule) (pass : Pass) : Prop where
  tidy : Tidy rules.homes pass.text.pieces
  single : ∀ home ∈ rules.homes, Table.Single home pass.text.table
  sources : ∀ apart, rules.destination ∈ apart → ∀ name, name ∉ done.map Rule.typeName →
    Table.sources apart name pass.text.table = Table.sources apart name text.table
  moved : pass.moved = done.filter fun rule => rule.Moves rules.destination text.table
  clashes : pass.clashes = done.filterMap fun rule => rule.clash? rules.destination text.table
  idle : pass.moved = [] → pass.text = text
  table : pass.text.table = text.batch rules.destination pass.moved

variable {rules : Rules} {text : Text} {done : List Rule} {pass : Pass} {rule : Rule}

lemma Follows.table_moved (h : Follows rules text done pass)
    (start : Tidy rules.homes text.pieces)
    (within : ∀ rule ∈ done, rule ∈ rules.list) (mem : rule ∈ rules.list)
    (fresh : rule.typeName ∉ done.map Rule.typeName) (listed : rule.Listed pass.text.table)
    (bound : Placement.slot (rule.left pass.text) ≤
      (Table.withdraw rule pass.text.table).length) :
    Table.enlist rule.typeName rules.destination (Placement.slot (rule.left pass.text))
        (Table.withdraw rule pass.text.table) =
      text.batch rules.destination (pass.moved ++ [rule]) := by
  have away := rules.away rule mem
  have single := h.single rule.home (List.mem_map_of_mem mem)
  cases moved : pass.moved with
  | nil =>
    rw [h.idle moved] at single listed bound ⊢
    exact Text.enlist_withdraw_eq_batch away single listed bound
  | cons first others =>
    have earlier : first ∈ done := by
      have mem : first ∈ pass.moved := by simp [moved]
      rw [h.moved] at mem
      exact List.mem_of_mem_filter mem
    have fits : Placement.slot (first.left text) ≤ (Table.withdraw first text.table).length := by
      rw [← start.orderly.table_left (List.mem_map_of_mem (within first earlier))]
      exact Placement.slot_le _
    have fresh' : rule.typeName ∉ (first :: others).map Rule.typeName := by
      rw [← moved, h.moved]
      exact fun mem => fresh ((List.filter_sublist.map _).subset mem)
    rw [h.table, moved] at single listed ⊢
    exact Text.enlist_withdraw_batch away fits fresh' single listed

/-- A rule whose type no rule before it had finds in the text what it would have found at first. -/
lemma Follows.listed_iff (h : Follows rules text done pass) (mem : rule ∈ rules.list)
    (fresh : rule.typeName ∉ done.map Rule.typeName) :
    rule.Listed pass.text.table ↔ rule.Listed text.table := by
  have away := rules.away rule mem
  rw [Table.listed_iff away, Table.listed_iff away, h.sources _ List.mem_cons_self _ fresh]

lemma Follows.third?_eq (h : Follows rules text done pass)
    (fresh : rule.typeName ∉ done.map Rule.typeName) :
    rule.third? rules.destination pass.text.table = rule.third? rules.destination text.table := by
  rw [Table.third?_eq, Table.third?_eq,
    h.sources _ (List.mem_cons_of_mem _ List.mem_cons_self) _ fresh]

/-- A rule that does not move its type leaves the text to the rules behind it. -/
lemma Follows.stay {clashes : List Clash} (h : Follows rules text done pass)
    (stays : ¬ rule.Moves rules.destination text.table)
    (met : clashes = pass.clashes ++ (rule.clash? rules.destination text.table).toList) :
    Follows rules text (done ++ [rule]) ⟨pass.text, pass.moved, clashes⟩ where
  tidy := h.tidy
  single := h.single
  sources apart gone name free := by
    rw [List.map_append, List.mem_append, not_or] at free
    exact h.sources apart gone name free.1
  moved := by
    dsimp only
    rw [h.moved, List.filter_append]
    simp [stays]
  clashes := by
    dsimp only
    rw [met, h.clashes, List.filterMap_append]
    cases met : rule.clash? rules.destination text.table with
    | none => simp [met]
    | some clash => simp [met]
  idle := h.idle
  table := h.table

/-- A rule that moves its type is the next one of the batch. -/
lemma Follows.move {new : Text} {slot : Nat} (h : Follows rules text done pass)
    (moves : rule.Moves rules.destination text.table) (tidy : Tidy rules.homes new.pieces)
    (bound : slot ≤ (Table.withdraw rule pass.text.table).length)
    (table : new.table = Table.enlist rule.typeName rules.destination slot
      (Table.withdraw rule pass.text.table))
    (batch : new.table = text.batch rules.destination (pass.moved ++ [rule])) :
    Follows rules text (done ++ [rule]) ⟨new, pass.moved ++ [rule], pass.clashes⟩ where
  tidy := tidy
  single home mem := by
    have away : home ≠ rules.destination := by
      rintro rfl
      exact rules.destination_notMem_homes mem
    dsimp only
    rw [table]
    exact (h.single home mem).withdraw.enlist away bound
  sources apart gone name free := by
    rw [List.map_append, List.mem_append, not_or] at free
    have other : name ≠ rule.typeName := fun same => free.2 (by simp [same])
    dsimp only
    rw [table, Table.sources_enlist gone bound, Table.sources_withdraw (.inl other),
      h.sources apart gone name free.1]
  moved := by
    dsimp only
    rw [h.moved, List.filter_append]
    simp [moves]
  clashes := by
    have quiet : rule.clash? rules.destination text.table = none := by
      rw [Rule.clash?, Table.free_iff.1 moves.2]
      simp
    dsimp only
    rw [h.clashes, List.filterMap_append]
    simp [quiet]
  idle none := by simp at none
  table := batch

lemma Follows.step (h : Follows rules text done pass)
    (isModule : Import.IsModule rules.destination) (start : Tidy rules.homes text.pieces)
    (within : ∀ rule ∈ done, rule ∈ rules.list) (mem : rule ∈ rules.list)
    (fresh : rule.typeName ∉ done.map Rule.typeName) :
    Follows rules text (done ++ [rule]) (step rules.destination pass rule) := by
  have home : rule.home ∈ rules.homes := List.mem_map_of_mem mem
  have single := h.single rule.home home
  have listed := h.listed_iff mem fresh
  have third := h.third?_eq fresh
  -- what the rule meets now it would have met at first, for no rule before it had its type
  rcases step_cases rules.destination pass rule with
    ⟨eq, free⟩ | ⟨statement, first, own, ⟨other, rival, eq⟩ | ⟨rival, eq⟩⟩
  · have absent : ¬ rule.Listed text.table := by
      rw [← listed, single.listed_iff]
      rintro ⟨statement, first, own⟩
      exact free statement first own
    rw [eq]
    refine h.stay (fun moves => absent moves.1) ?_
    rw [Rule.clash?, if_neg absent, Option.toList_none, List.append_nil]
  · have here : rule.Listed text.table := listed.1 (single.listed_iff.2 ⟨statement, first, own⟩)
    rw [Table.rival?_eq, third] at rival
    rw [eq]
    refine h.stay (fun moves => ?_) ?_
    · cases (Table.free_iff.1 moves.2).symm.trans rival
    · rw [Rule.clash?, if_pos here, rival]
      rfl
  · have now : rule.Listed pass.text.table := single.listed_iff.2 ⟨statement, first, own⟩
    rw [Table.rival?_eq, third] at rival
    obtain ⟨tidy, bound, table⟩ :=
      h.tidy.moved isModule home rules.destination_notMem_homes first own
    rw [eq]
    exact h.move ⟨listed.1 now, Table.free_iff.2 rival⟩ tidy bound table
      (table.trans (h.table_moved start within mem fresh now bound))

end Pass

namespace Rules

/-- A pass over a tidy text with at most one import of each home does at once what its rules do one
by one: which types move, which clash and with what module, and what the text imports afterwards can
be read off the first table. -/
theorem rewrite_eq_batch {rules : Rules} {text : Text}
    (isModule : Import.IsModule rules.destination) (tidy : Tidy rules.homes text.pieces)
    (single : ∀ home ∈ rules.homes, Table.Single home text.table) :
    let moved := rules.list.filter fun rule => rule.Moves rules.destination text.table
    (rules.rewrite text).moved = moved ∧
      (rules.rewrite text).clashes =
        rules.list.filterMap (fun rule => rule.clash? rules.destination text.table) ∧
      (rules.rewrite text).text.table = text.batch rules.destination moved := by
  intro moved
  have follows : Pass.Follows rules text rules.list (rules.rewrite text) := by
    refine rewrite_induction ?_ fun done pass rule rest all h => ?_
    · exact ⟨tidy, single, fun _ _ _ _ => rfl, rfl, rfl, fun _ => rfl, rfl⟩
    · have unique := rules.nodup
      rw [← all, List.map_append, List.nodup_append] at unique
      have fresh : rule.typeName ∉ done.map Rule.typeName := fun mem =>
        unique.2.2 _ mem _ List.mem_cons_self rfl
      exact h.step isModule tidy (fun rule mem => by simp [← all, mem]) (by simp [← all]) fresh
  have same : (rules.rewrite text).moved = moved := follows.moved
  refine ⟨same, follows.clashes, ?_⟩
  rw [← same]
  exact follows.table

/-- One type moves, another stays because a third module provides it, and one is not imported. -/
theorem rewrite_eq_batch_mixed :
    let rules : Rules := ⟨"t".toList, [⟨"A".toList, "a".toList⟩, ⟨"B".toList, "b".toList⟩,
      ⟨"C".toList, "c".toList⟩], by decide, by decide⟩
    let text : Text :=
      "import \x7b A, Z \x7d from 'a'\nimport \x7b B \x7d from 'b'\n".toList ++
        "import \x7b B \x7d from 'x'\n".toList
    Tidy rules.homes text.pieces ∧ (∀ home ∈ rules.homes, Table.Single home text.table) ∧
      (rules.rewrite text).movedNames = ["A".toList] ∧
      (rules.rewrite text).clashes = [⟨"B".toList, "b".toList, "x".toList⟩] ∧
      (rules.rewrite text).text.table = [⟨["A".toList], "t".toList⟩, ⟨["Z".toList], "a".toList⟩,
        ⟨["B".toList], "b".toList⟩, ⟨["B".toList], "x".toList⟩] := by
  intro rules text
  have isModule : Import.IsModule rules.destination := by decide
  have tidy : Tidy rules.homes text.pieces := by decide +kernel
  have single : ∀ home ∈ rules.homes, Table.Single home text.table := by decide +kernel
  obtain ⟨moved, clashes, table⟩ := rewrite_eq_batch isModule tidy single
  refine ⟨tidy, single, ?_, clashes.trans (by decide +kernel), table.trans (by decide +kernel)⟩
  exact (congrArg (List.map Rule.typeName) moved).trans (by decide +kernel)

end Rules

end Rehome
