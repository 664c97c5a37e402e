import Rehome.Proofs.Rewrite.Names
import Rehome.Proofs.Rewrite.Repeat

/-!
# Where moved types are listed

A type that a pass moves is meant to be listed by the first import of the destination afterwards.
That needs a destination that can be read back from between quotes, and rules that touch no other
import: a new import that goes inside another one is read with the names of that. Main statement:
what the destination provides after a pass (`Rules.provides_rewrite`).
-/

namespace Rehome

/-- The first import of the module lists the name. -/
def Text.Provides (text module name : Text) : Prop :=
  ∃ statement, text.importOf? module = some statement ∧ name ∈ statement.names

/-! ### Names of the first entry -/

namespace Table

variable {destination typeName other : Text} {slot : Nat} {table : List Import}

/-- The first entry of the module lists the name. -/
def Provides (table : List Import) (module name : Text) : Prop :=
  ∃ names ∈ (lists module table).head?, name ∈ names

instance (table : List Import) (module name : Text) : Decidable (Provides table module name) :=
  inferInstanceAs (Decidable (∃ names ∈ (lists module table).head?, name ∈ names))

lemma provides_iff {text module name : Text} :
    text.Provides module name ↔ Provides text.table module name := by
  rw [Provides, ← importOf?_names]
  simp [Text.Provides]

/-- Listing a name adds it to the first entry of the destination, and no other. -/
lemma provides_enlist_iff (bound : slot ≤ table.length) :
    Provides (enlist typeName destination slot table) destination other ↔
      Provides table destination other ∨ other = typeName := by
  rw [Provides, Provides, enlist]
  split
  case isTrue listed =>
    rcases revise_cases destination (fun found => [found.including typeName]) table with
      ⟨none, -⟩ | ⟨front, found, back, rfl, same, before, eq⟩
    · obtain ⟨found, mem, same⟩ := listed
      exact absurd same (none found mem)
    · have same' : (found.including typeName).module = destination :=
        (module_including _ _).trans same
      rw [eq, List.singleton_append, lists_append, lists_append, lists_of_forall_ne before,
        lists_cons, lists_cons, if_pos same, if_pos same']
      simp [mem_including]
  case isFalse unlisted =>
    have none : ∀ found ∈ table, found.module ≠ destination :=
      fun found mem same => unlisted ⟨found, mem, same⟩
    obtain ⟨front, back, rfl, inserted⟩ := exists_insertIdx bound
    rw [List.forall_mem_append] at none
    rw [inserted, lists_append, lists_append, lists_of_forall_ne none.1, lists_cons, if_pos rfl,
      lists_of_forall_ne none.2]
    simp

end Table

lemma Rule.Clean.provides_iff {rule : Rule} {destination text name : Text}
    (clean : rule.Clean destination text) (isModule : Import.IsModule destination)
    (away : rule.home ≠ destination) (ready : rule.Ready destination text) :
    ((rule.left text).enlist rule.typeName destination).Provides destination name ↔
      text.Provides destination name ∨ name = rule.typeName := by
  obtain ⟨statement, first, own, -⟩ := ready
  have isName := (Text.writable_of_importOf? first).names _ own
  rw [Table.provides_iff, Table.provides_iff, Table.table_enlist isName isModule clean.insertion,
    Table.provides_enlist_iff (Placement.slot_le _), Table.table_left clean.cut, Table.Provides,
    Table.lists_withdraw away, Table.Provides]

namespace Text

variable {text module : Text}

/-- What cannot stand between quotes is the module of no import. -/
lemma importOf?_eq_none_of_not_isModule (odd : ¬ Import.IsModule module) :
    text.importOf? module = none := by
  cases found : text.importOf? module with
  | none => rfl
  | some statement =>
    have same : statement.module = module := by
      simpa using List.find?_some found
    exact absurd (same ▸ (writable_of_importOf? found).module) odd

end Text

namespace Orderly

open Text

variable {homes : List Text} {text destination typeName : Text} {rule : Rule} {n : Nat}

/-- A new import that goes inside another one does not list its type, unless that one did. -/
lemma not_provides_broken (isName : Import.IsName typeName) (isModule : Import.IsModule destination)
    (braceless : ∀ found ∈ text.table, found.Braceless) (none : text.importOf? destination = none)
    (point : Placement.point? text = some n) (inside : text.Straddled n) (plain : '{' ∉ typeName)
    (fresh : typeName ∉ text.names) :
    ¬ (text.enlist typeName destination).Provides destination typeName := by
  obtain ⟨front, part, scrap, found, back, own, names, pieces, -, inserted, -, only⟩ :=
    exists_pieces_broken isName isModule braceless none point inside
  rw [importOf?_eq_none_iff, table_eq, pieces, importsIn_append, List.forall_mem_append] at none
  rw [Text.names, table_eq, pieces] at fresh
  rw [Table.provides_iff, Table.Provides, table_eq, inserted, importsIn_append, Table.lists_append,
    Table.lists_of_forall_ne none.1, importsIn_statement, Table.lists_cons, if_pos rfl]
  rintro ⟨_, ⟨⟩, mem⟩
  rcases only typeName mem with brace | listed
  · exact plain brace
  · exact fresh (by simp [listed])

/-- The first move leads to what it says exactly if its import goes inside no other one. -/
lemma provides_begun_iff (h : Orderly homes text.pieces) (isModule : Import.IsModule destination)
    (home : rule.home ∈ homes) (away : destination ∉ homes)
    (braceless : ∀ found ∈ text.table, found.Braceless) (ready : rule.Ready destination text)
    (fresh : rule.typeName ∉ (rule.left text).names) :
    ((rule.left text).enlist rule.typeName destination).Provides destination rule.typeName ↔
      (text.importOf? destination = none → ∀ n ∈ Placement.point? (rule.left text),
        ¬ (rule.left text).Straddled n) := by
  have none_iff := h.importOf?_left_eq_none_iff home away
  constructor
  · intro provided none n point inside
    obtain ⟨statement, first, own, -⟩ := ready
    have isName := (writable_of_importOf? first).names _ own
    have listed : statement.toImport ∈ text.table :=
      List.mem_map_of_mem (List.mem_of_find?_eq_some first)
    have plain := (braceless _ listed).2 _ own
    exact not_provides_broken isName isModule (h.braceless_left home braceless) (none_iff.2 none)
      point inside plain fresh provided
  · intro apart
    have clean := h.clean home fun none => (h.left home).1.unbroken (apart (none_iff.1 none))
    have other : rule.home ≠ destination := fun same => away (same ▸ home)
    exact (clean.provides_iff isModule other ready).2 (.inr rfl)

end Orderly

namespace Rules

variable {rules : Rules} {text : Text}

/-- After the first move over an orderly text all others lead to what they say. -/
lemma provides_rewrite_of_orderly (isModule : Import.IsModule rules.destination)
    (orderly : Orderly rules.homes text.pieces)
    (braceless : ∀ found ∈ text.table, found.Braceless) :
    ∀ rule ∈ (rules.rewrite text).moved.head?,
      rule ∈ rules.list ∧ rule.Ready rules.destination text ∧
        ∀ name, (rules.rewrite text).text.Provides rules.destination name ↔
          ((rule.left text).enlist rule.typeName rules.destination).Provides
              rules.destination name ∨
            name ∈ (rules.rewrite text).moved.tail.map Rule.typeName := by
  refine orderly_induction (motive := fun new moved => ∀ rule ∈ moved.head?,
    rule ∈ rules.list ∧ rule.Ready rules.destination text ∧
      ∀ name, new.Provides rules.destination name ↔
        ((rule.left text).enlist rule.typeName rules.destination).Provides
            rules.destination name ∨
          name ∈ moved.tail.map Rule.typeName) isModule orderly braceless (by simp) ?_ ?_
  · rintro rule mem ready - - _ ⟨⟩
    exact ⟨mem, ready, by simp⟩
  · intro rule mem new moved begun ready orderly listed h first head
    have home : rule.home ∈ rules.homes := List.mem_map_of_mem mem
    have away := rules.destination_notMem_homes
    have still := mt (orderly.importOf?_left_eq_none_iff home away).1 listed
    have clean := orderly.clean home fun none => absurd none still
    rw [List.head?_append_of_ne_nil _ begun] at head
    obtain ⟨mem', ready', provided⟩ := h first head
    refine ⟨mem', ready', fun name => ?_⟩
    rw [clean.provides_iff isModule (rules.away rule mem) ready, provided,
      List.tail_append_of_ne_nil begun, List.map_append, List.mem_append, List.map_singleton,
      List.mem_singleton, or_assoc]

/-- After clean moves the destination provides what it did before, and what has moved. -/
lemma provides_rewrite_of_clean (isModule : Import.IsModule rules.destination)
    (clean : rules.Clean text) (name : Text) :
    (rules.rewrite text).text.Provides rules.destination name ↔
      text.Provides rules.destination name ∨ name ∈ (rules.rewrite text).movedNames := by
  refine clean_induction (motive := fun new moved => new.Provides rules.destination name ↔
    text.Provides rules.destination name ∨ name ∈ moved.map Rule.typeName) clean (by simp) ?_
  intro rule mem new moved ready clean h
  rw [clean.provides_iff isModule (rules.away rule mem) ready, h, List.map_append, List.mem_append,
    List.map_singleton, List.mem_singleton, or_assoc]

/-- What the destination provides after a pass. A destination that cannot be read back from between
quotes provides nothing. If every rule that moves its type touches no other import, the destination
provides what it did before and all that has moved. Over an orderly text without opening braces in
names and modules, of which the first type that moves is listed nowhere else, it provides all that
has moved exactly if its first import, where there was none before, goes inside no other one. -/
theorem provides_rewrite (rules : Rules) (text : Text) :
    (¬ Import.IsModule rules.destination →
        (rules.rewrite text).text.importOf? rules.destination = none) ∧
      (Import.IsModule rules.destination → rules.Clean text → ∀ name,
        (rules.rewrite text).text.Provides rules.destination name ↔
          text.Provides rules.destination name ∨ name ∈ (rules.rewrite text).movedNames) ∧
      (Import.IsModule rules.destination → Orderly rules.homes text.pieces →
        (∀ found ∈ text.table, found.Braceless) →
        (∀ rule ∈ (rules.rewrite text).moved.head?, rule.typeName ∉ (rule.left text).names) →
          ((∀ name ∈ (rules.rewrite text).movedNames,
              (rules.rewrite text).text.Provides rules.destination name) ↔
            (text.importOf? rules.destination = none →
              ∀ rule ∈ (rules.rewrite text).moved.head?, ∀ n ∈ Placement.point? (rule.left text),
                ¬ (rule.left text).Straddled n))) := by
  refine ⟨Text.importOf?_eq_none_of_not_isModule, provides_rewrite_of_clean, ?_⟩
  intro isModule orderly braceless fresh
  have provided := provides_rewrite_of_orderly isModule orderly braceless
  have once := rules.nodup_movedNames text
  rw [Pass.movedNames] at once ⊢
  cases moved : (rules.rewrite text).moved with
  | nil => simp
  | cons rule rest =>
    rw [moved] at provided fresh once
    obtain ⟨mem, ready, provided⟩ := provided rule rfl
    have home : rule.home ∈ rules.homes := List.mem_map_of_mem mem
    have begun := orderly.provides_begun_iff isModule home rules.destination_notMem_homes braceless
      ready (fresh rule rfl)
    -- the other types are listed in any case, and the first one is no other
    have others : rule.typeName ∉ rest.map Rule.typeName := (List.nodup_cons.1 once).1
    simp only [List.map_cons, List.forall_mem_cons, List.head?_cons, Option.mem_some_iff,
      forall_eq', ← begun]
    constructor
    · rintro ⟨own, -⟩
      exact ((provided rule.typeName).1 own).resolve_right others
    · intro own
      exact ⟨(provided rule.typeName).2 (.inl own), fun name mem => (provided name).2 (.inr mem)⟩

/-- A comment among the names holds the directive, and the new import is read with the names before
it. -/
theorem provides_rewrite_in_comment :
    let text : Text := "import \x7b\n  Order, // 'use client' pages\n  saveOrder,\n\x7d ".toList ++
      "from \"@/utils/orderStorage\";\n".toList
    (standard.rewrite text).movedNames = ["Order".toList] ∧
      ¬ ∀ name ∈ (standard.rewrite text).movedNames,
        (standard.rewrite text).text.Provides standard.destination name := by
  intro text
  have moved : (standard.rewrite text).movedNames = ["Order".toList] := by decide +kernel
  refine ⟨moved, fun provided => ?_⟩
  rw [moved, List.forall_mem_singleton, Table.provides_iff] at provided
  exact absurd provided (by decide +kernel)

/-- Both types of an import behind the directive move, unless the destination has a quote. -/
theorem provides_rewrite_behind_directive :
    let text : Text :=
      "'use client'\nimport \x7b Product, CartItem \x7d from '@/utils/dummyData'\n".toList
    let odd : Rules := ⟨"it's".toList, standard.list, by decide, by decide⟩
    let types := ["Product".toList, "CartItem".toList]
    ¬ Import.IsModule odd.destination ∧ (odd.rewrite text).movedNames = types ∧
      (odd.rewrite text).text.importOf? odd.destination = none ∧
      Import.IsModule standard.destination ∧ standard.Clean text ∧
      Orderly standard.homes text.pieces ∧ (∀ found ∈ text.table, found.Braceless) ∧
      (∀ rule ∈ (standard.rewrite text).moved.head?,
        rule.typeName ∉ (rule.left text).names) ∧
      (standard.rewrite text).movedNames = types ∧
      (∀ name ∈ types, (standard.rewrite text).text.Provides standard.destination name) ∧
      (text.importOf? standard.destination = none →
        ∀ rule ∈ (standard.rewrite text).moved.head?, ∀ n ∈ Placement.point? (rule.left text),
          ¬ (rule.left text).Straddled n) := by
  intro text odd types
  have quoted : ¬ Import.IsModule odd.destination := by decide
  have isModule : Import.IsModule standard.destination := by decide
  have tidy : Tidy standard.homes text.pieces := by decide +kernel
  have braceless : ∀ found ∈ text.table, found.Braceless := by decide +kernel
  have fresh : ∀ rule ∈ (standard.rewrite text).moved.head?,
      rule.typeName ∉ (rule.left text).names := by decide +kernel
  have moved : (standard.rewrite text).movedNames = types := by decide +kernel
  have moved' : (odd.rewrite text).movedNames = types := by decide +kernel
  have clean := clean_of_tidy isModule tidy
  have provided : ∀ name ∈ (standard.rewrite text).movedNames,
      (standard.rewrite text).text.Provides standard.destination name :=
    fun name mem => ((provides_rewrite standard text).2.1 isModule clean name).2 (.inr mem)
  refine ⟨quoted, moved', (provides_rewrite odd text).1 quoted, isModule, clean, tidy.orderly,
    braceless, fresh, moved, moved ▸ provided, ?_⟩
  exact ((provides_rewrite standard text).2.2 isModule tidy.orderly braceless fresh).1 provided

end Rules

end Rehome
