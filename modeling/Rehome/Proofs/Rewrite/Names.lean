import Rehome.Proofs.Import.Broken
import Rehome.Proofs.Rewrite.Outside

/-!
# Names are kept

A rule that moves its type takes the name out of one import and lists it in another. That the text
lists the same names afterwards is due to the text around: where a whole import goes, the text
before it may join to the text behind it, and the directive may stand inside an import, which a new
one then breaks. Main statement: a pass keeps the names of a text if neither happens, and in an
orderly text it keeps them exactly if the directive does not stand inside an import when the first
new one is written (`Rules.names_rewrite`).
-/

namespace Rehome

/-- The names that the text imports. -/
def Text.names (text : Text) : List Text :=
  text.table.flatMap Import.names

/-- When the rule moves its type it touches no other import: none goes across the place that a whole
one leaves, and none is broken off where a new one goes. -/
structure Rule.Clean (rule : Rule) (destination text : Text) : Prop where
  cut : ∀ statement, text.importOf? rule.home = some statement →
    statement.names.erase rule.typeName = [] → ¬ (rule.left text).Straddled statement.start
  insertion : (rule.left text).importOf? destination = none → Placement.Unbroken (rule.left text)

namespace Rules

/-- The text when the first rules have been tried. -/
def reached (rules : Rules) (done : List Rule) (text : Text) : Text :=
  (done.foldl (Pass.step rules.destination) ⟨text, [], []⟩).text

/-- Every rule that moves its type touches no other import. -/
def Clean (rules : Rules) (text : Text) : Prop :=
  ∀ done rule rest, done ++ rule :: rest = rules.list →
    rule.Ready rules.destination (rules.reached done text) →
      rule.Clean rules.destination (rules.reached done text)

end Rules

/-! ### Names of a table -/

namespace Table

variable {name other destination : Text} {slot : Nat} {table : List Import} {found : Import}

lemma flatMap_names_without : (found.without name).flatMap Import.names = found.names.erase name := by
  rw [Import.without]
  split
  case h_1 none => exact none.symm
  case h_2 => simp

lemma mem_including : other ∈ (found.including name).names ↔ other ∈ found.names ∨ other = name := by
  rw [Import.including]
  split
  case isTrue listed =>
    constructor
    · exact .inl
    · rintro (mem | rfl)
      · exact mem
      · exact listed
  case isFalse => simp

/-- Listing a name adds it and no other. -/
lemma mem_flatMap_enlist (bound : slot ≤ table.length) :
    other ∈ (enlist name destination slot table).flatMap Import.names ↔
      other ∈ table.flatMap Import.names ∨ other = name := by
  rw [enlist]
  split
  case isTrue listed =>
    rcases revise_cases destination (fun found => [found.including name]) table with
      ⟨none, -⟩ | ⟨front, found, back, rfl, -, -, eq⟩
    · obtain ⟨found, mem, same⟩ := listed
      exact absurd same (none found mem)
    · rw [eq]
      simp only [List.flatMap_append, List.flatMap_cons, List.flatMap_nil, List.mem_append,
        mem_including, List.not_mem_nil, or_false]
      tauto
  case isFalse =>
    obtain ⟨front, back, rfl, inserted⟩ := exists_insertIdx bound
    rw [inserted]
    simp only [List.flatMap_append, List.flatMap_cons, List.mem_append, List.mem_singleton]
    tauto

/-- Taking a name out takes no other. -/
lemma mem_flatMap_withdraw {rule : Rule} {text : Text} {statement : Statement}
    (first : text.importOf? rule.home = some statement) (own : rule.typeName ∈ statement.names) :
    other ∈ (withdraw rule text.table).flatMap Import.names ∨ other = rule.typeName ↔
      other ∈ text.names := by
  obtain ⟨front, back, table, left⟩ := exists_withdraw_eq first
  have names : other ∈ statement.names.erase rule.typeName ∨ other = rule.typeName ↔
      other ∈ statement.names := by
    by_cases same : other = rule.typeName
    · simp [same, own]
    · simp [same, List.mem_erase_of_ne same]
  rw [Text.names, left, table]
  simp only [List.flatMap_append, List.flatMap_cons, flatMap_names_without, List.mem_append,
    ← names]
  tauto

end Table

/-! ### Clean moves -/

/-- A rule that touches no other import keeps the names. -/
lemma Rule.Clean.mem_names_iff {rule : Rule} {destination text name : Text} {statement : Statement}
    (clean : rule.Clean destination text) (isModule : Import.IsModule destination)
    (first : text.importOf? rule.home = some statement) (own : rule.typeName ∈ statement.names) :
    name ∈ ((rule.left text).enlist rule.typeName destination).names ↔ name ∈ text.names := by
  have isName := (Text.writable_of_importOf? first).names _ own
  have left := Table.table_left clean.cut
  rw [Text.names, Table.table_enlist isName isModule clean.insertion,
    Table.mem_flatMap_enlist (Placement.slot_le _), left, Table.mem_flatMap_withdraw first own]

namespace Rules

variable {rules : Rules} {text : Text}

/-- Induction over the moves of a pass in which every rule that moves its type touches no other
import. -/
lemma clean_induction {motive : Text → List Rule → Prop} (clean : rules.Clean text)
    (start : motive text [])
    (move : ∀ rule ∈ rules.list, ∀ text moved, rule.Ready rules.destination text →
      rule.Clean rules.destination text → motive text moved →
        motive ((rule.left text).enlist rule.typeName rules.destination) (moved ++ [rule])) :
    motive (rules.rewrite text).text (rules.rewrite text).moved := by
  have kept : rules.rewrite text = rules.list.foldl (Pass.step rules.destination) ⟨text, [], []⟩ ∧
      motive (rules.rewrite text).text (rules.rewrite text).moved := by
    refine rewrite_induction (motive := fun done pass =>
      pass = done.foldl (Pass.step rules.destination) ⟨text, [], []⟩ ∧
        motive pass.text pass.moved) ?_ ?_
    · exact ⟨rfl, start⟩
    · rintro done pass rule rest all ⟨rfl, h⟩
      refine ⟨by rw [List.foldl_append]; rfl, ?_⟩
      by_cases ready : rule.Ready rules.destination (rules.reached done text)
      · rw [Pass.step_of_ready ready]
        exact move rule (by simp [← all]) _ _ ready (clean done rule rest all ready) h
      · obtain ⟨same, moved⟩ := Pass.step_of_not_ready ready
        rw [same, moved]
        exact h
  exact kept.2

lemma mem_names_rewrite_of_clean (isModule : Import.IsModule rules.destination)
    (clean : rules.Clean text) (name : Text) :
    name ∈ (rules.rewrite text).text.names ↔ name ∈ text.names := by
  refine clean_induction (motive := fun new _ => name ∈ new.names ↔ name ∈ text.names) clean .rfl ?_
  intro rule _ new _ ready clean same
  obtain ⟨statement, first, own, -⟩ := ready
  rw [clean.mem_names_iff isModule first own]
  exact same

end Rules

/-! ### Orderly texts -/

namespace Orderly

open Text

variable {homes : List Text} {text : Text}

/-- In an orderly text a rule touches no other import unless it breaks one off. -/
lemma clean {rule : Rule} {destination : Text} (h : Orderly homes text.pieces)
    (home : rule.home ∈ homes)
    (unbroken : (rule.left text).importOf? destination = none →
      Placement.Unbroken (rule.left text)) : rule.Clean destination text :=
  ⟨fun _ first none => h.not_straddled_left home first none, unbroken⟩

/-- A move that breaks no import off leaves the text orderly, gives the destination an import and
keeps the names. -/
lemma moved {rule : Rule} {destination : Text} {statement : Statement}
    (h : Orderly homes text.pieces) (isModule : Import.IsModule destination)
    (home : rule.home ∈ homes) (away : destination ∉ homes)
    (first : text.importOf? rule.home = some statement) (own : rule.typeName ∈ statement.names)
    (unbroken : (rule.left text).importOf? destination = none →
      Placement.Unbroken (rule.left text)) :
    Orderly homes ((rule.left text).enlist rule.typeName destination).pieces ∧
      ((rule.left text).enlist rule.typeName destination).importOf? destination ≠ none ∧
      ∀ name, name ∈ ((rule.left text).enlist rule.typeName destination).names ↔
        name ∈ text.names := by
  have isName := (writable_of_importOf? first).names _ own
  have orderly := (h.left home).1
  refine ⟨(orderly.enlist isName isModule away unbroken).1,
    importOf?_enlist_ne_none isName isModule unbroken, fun name => ?_⟩
  exact (h.clean home unbroken).mem_names_iff isModule first own

/-- Where a new import goes inside another one, the list that it is read with holds a name with a
brace, and else only such as the other one listed. -/
lemma exists_pieces_broken {typeName destination : Text} {n : Nat}
    (isName : Import.IsName typeName) (isModule : Import.IsModule destination)
    (braceless : ∀ found ∈ text.table, found.Braceless) (none : text.importOf? destination = none)
    (point : Placement.point? text = some n) (inside : text.Straddled n) :
    ∃ front part scrap found back own names,
      text.pieces = front ++ .statement (part ++ scrap) found :: back ∧ Placement.Inert scrap ∧
        (text.enlist typeName destination).pieces =
          front ++ .statement own ⟨names, destination⟩ :: (scrap.map .gap ++ back) ∧
        (∃ name ∈ names, '{' ∈ name) ∧ ∀ name ∈ names, '{' ∈ name ∨ name ∈ found.names := by
  obtain ⟨front, part, scrap, found, back, pieces, opens, point⟩ :=
    Placement.exists_of_straddled point inside
  have plain : found.Braceless := by
    refine braceless found ?_
    rw [table_eq, pieces]
    simp
  have inert := Placement.inert_of_opens pieces opens plain
  obtain ⟨own, names, inserted, listed⟩ :=
    Placement.pieces_insert_of_opens pieces opens inert point isName isModule
  rw [Text.enlist, none]
  exact ⟨front, part, scrap, found, back, own, names, pieces, inert, inserted, listed⟩

/-- Where a new import goes inside another one, a name that is listed afterwards has a brace. -/
lemma broken {typeName destination : Text} {n : Nat} (h : Orderly homes text.pieces)
    (isName : Import.IsName typeName) (isModule : Import.IsModule destination)
    (away : destination ∉ homes) (braceless : ∀ found ∈ text.table, found.Braceless)
    (none : text.importOf? destination = none) (point : Placement.point? text = some n)
    (inside : text.Straddled n) :
    Orderly homes (text.enlist typeName destination).pieces ∧
      (text.enlist typeName destination).importOf? destination ≠ Option.none ∧
      ∃ name ∈ (text.enlist typeName destination).names, '{' ∈ name := by
  obtain ⟨front, part, scrap, found, back, own, names, pieces, inert, inserted,
    ⟨name, mem, brace⟩, -⟩ := exists_pieces_broken isName isModule braceless none point inside
  rw [pieces] at h
  refine ⟨?_, ?_, name, ?_, brace⟩
  · rw [inserted]
    have guarded := Guarded.statement_iff.1 h.guarded
    have lined := (Lined.cons_statement_iff.1 h.lined.append_right).2
    constructor
    · exact Guarded.statement_iff.2 ⟨guarded.1, inert.guarded guarded.2⟩
    · refine h.lined.swap (fun ends => ends.elim) ?_
      rw [Lined.cons_statement_iff]
      exact ⟨fun home => absurd home away, lined.gaps_append scrap⟩
  · rw [Ne, importOf?_eq_none_iff, table_eq, inserted]
    intro others
    exact others ⟨names, destination⟩ (by simp) rfl
  · rw [Text.names, table_eq, inserted]
    simp [mem]

/-- Taking a type out leaves the names without braces. -/
lemma braceless_left {rule : Rule} (h : Orderly homes text.pieces) (home : rule.home ∈ homes)
    (braceless : ∀ found ∈ text.table, found.Braceless) :
    ∀ found ∈ (rule.left text).table, found.Braceless := by
  have table : (rule.left text).table = Table.withdraw rule text.table := h.table_left home
  rw [table]
  refine Table.forall_mem_revise braceless fun found _ plain new mem => ?_
  rw [Import.eq_of_mem_without mem]
  exact ⟨plain.1, fun name listed => plain.2 name (List.mem_of_mem_erase listed)⟩

end Orderly

/-! ### A pass over an orderly text -/

namespace Orderly

variable {homes : List Text} {text destination : Text} {rule : Rule}

/-- The first rule that moves its type gives the destination an import. It keeps the names exactly
if that goes inside no other import. -/
lemma begin_pass (h : Orderly homes text.pieces) (isModule : Import.IsModule destination)
    (home : rule.home ∈ homes) (away : destination ∉ homes)
    (braceless : ∀ found ∈ text.table, found.Braceless) (ready : rule.Ready destination text) :
    Orderly homes ((rule.left text).enlist rule.typeName destination).pieces ∧
      ((rule.left text).enlist rule.typeName destination).importOf? destination ≠ none ∧
      ((∀ name, name ∈ ((rule.left text).enlist rule.typeName destination).names ↔
          name ∈ text.names) ↔
        (text.importOf? destination = none → ∀ n ∈ Placement.point? (rule.left text),
          ¬ (rule.left text).Straddled n)) := by
  obtain ⟨statement, first, own, -⟩ := ready
  have orderly := (h.left home).1
  have none_iff := h.importOf?_left_eq_none_iff home away
  by_cases apart : text.importOf? destination = none →
      ∀ n ∈ Placement.point? (rule.left text), ¬ (rule.left text).Straddled n
  · obtain ⟨orderly', listed, kept⟩ := h.moved isModule home away first own
      fun none => orderly.unbroken (apart (none_iff.1 none))
    exact ⟨orderly', listed, iff_of_true kept apart⟩
  · rw [← none_iff] at apart ⊢
    push Not at apart
    obtain ⟨none, n, point, inside⟩ := apart
    have isName := (Text.writable_of_importOf? first).names _ own
    obtain ⟨orderly', listed, name, mem, brace⟩ := orderly.broken isName isModule away
      (h.braceless_left home braceless) none point inside
    refine ⟨orderly', listed, iff_of_false (fun kept => ?_) fun apart => ?_⟩
    · obtain ⟨found, within, mem⟩ := List.mem_flatMap.1 ((kept name).1 mem)
      exact (braceless found within).2 name mem brace
    · exact apart none n point inside

end Orderly

/-- Since the text `begun` the names have been kept, in an orderly text that imports the
destination. -/
structure Carried (homes : List Text) (destination begun text : Text) : Prop where
  orderly : Orderly homes text.pieces
  listed : text.importOf? destination ≠ none
  names : ∀ name, name ∈ text.names ↔ name ∈ begun.names

lemma Carried.move {homes : List Text} {destination begun text : Text} {rule : Rule}
    (h : Carried homes destination begun text) (isModule : Import.IsModule destination)
    (home : rule.home ∈ homes) (away : destination ∉ homes)
    (ready : rule.Ready destination text) :
    Carried homes destination begun ((rule.left text).enlist rule.typeName destination) := by
  obtain ⟨statement, first, own, -⟩ := ready
  have still := mt (h.orderly.importOf?_left_eq_none_iff home away).1 h.listed
  obtain ⟨orderly, listed, kept⟩ := h.orderly.moved isModule home away first own
    fun none => absurd none still
  exact ⟨orderly, listed, fun name => (kept name).trans (h.names name)⟩

namespace Rules

variable {rules : Rules} {text : Text}

/-- Induction over the moves of a pass over an orderly text: the first one gives the destination an
import, and all others find an orderly text that has one. -/
lemma orderly_induction {motive : Text → List Rule → Prop}
    (isModule : Import.IsModule rules.destination) (orderly : Orderly rules.homes text.pieces)
    (braceless : ∀ found ∈ text.table, found.Braceless) (idle : motive text [])
    (first : ∀ rule ∈ rules.list, rule.Ready rules.destination text →
      Orderly rules.homes ((rule.left text).enlist rule.typeName rules.destination).pieces →
      ((rule.left text).enlist rule.typeName rules.destination).importOf? rules.destination ≠ none →
        motive ((rule.left text).enlist rule.typeName rules.destination) [rule])
    (later : ∀ rule ∈ rules.list, ∀ new moved, moved ≠ [] → rule.Ready rules.destination new →
      Orderly rules.homes new.pieces → new.importOf? rules.destination ≠ none → motive new moved →
        motive ((rule.left new).enlist rule.typeName rules.destination) (moved ++ [rule])) :
    motive (rules.rewrite text).text (rules.rewrite text).moved := by
  have away := rules.destination_notMem_homes
  have home : ∀ rule ∈ rules.list, rule.home ∈ rules.homes := fun _ => List.mem_map_of_mem
  refine (moves_induction (motive := fun new moved => motive new moved ∧
    (moved = [] ∧ new = text ∨ moved ≠ [] ∧ Orderly rules.homes new.pieces ∧
      new.importOf? rules.destination ≠ none)) ⟨idle, .inl ⟨rfl, rfl⟩⟩ ?_ (List.append_nil _)).1
  rintro rule mem new moved ready ⟨h, ⟨rfl, rfl⟩ | ⟨begun, orderly', listed⟩⟩
  · obtain ⟨orderly', listed, -⟩ := orderly.begin_pass isModule (home rule mem) away braceless ready
    exact ⟨first rule mem ready orderly' listed, .inr ⟨by simp, orderly', listed⟩⟩
  · have carried : Carried rules.homes rules.destination new new :=
      ⟨orderly', listed, fun _ => .rfl⟩
    obtain ⟨orderly'', listed', -⟩ := carried.move isModule (home rule mem) away ready
    exact ⟨later rule mem new moved begun ready orderly' listed h,
      .inr ⟨by simp, orderly'', listed'⟩⟩

/-- A pass over an orderly text does nothing, or it keeps the names that its first move leaves. -/
lemma idle_or_carried (isModule : Import.IsModule rules.destination)
    (orderly : Orderly rules.homes text.pieces)
    (braceless : ∀ found ∈ text.table, found.Braceless) :
    ((rules.rewrite text).moved = [] ∧ (rules.rewrite text).text = text) ∨
      ∃ rule ∈ rules.list, (∃ rest, (rules.rewrite text).moved = rule :: rest) ∧
        rule.Ready rules.destination text ∧ Carried rules.homes rules.destination
          ((rule.left text).enlist rule.typeName rules.destination) (rules.rewrite text).text := by
  refine orderly_induction (motive := fun new moved => (moved = [] ∧ new = text) ∨
    ∃ rule ∈ rules.list, (∃ rest, moved = rule :: rest) ∧ rule.Ready rules.destination text ∧
      Carried rules.homes rules.destination
        ((rule.left text).enlist rule.typeName rules.destination) new) isModule orderly braceless
    (.inl ⟨rfl, rfl⟩) ?_ ?_
  · intro rule mem ready orderly' listed
    exact .inr ⟨rule, mem, ⟨[], rfl⟩, ready, orderly', listed, fun _ => .rfl⟩
  · rintro rule mem new moved begun ready - - (⟨idle, -⟩ | ⟨first, mem', ⟨rest, rfl⟩, ready', carried⟩)
    · exact absurd idle begun
    · have home : rule.home ∈ rules.homes := List.mem_map_of_mem mem
      exact .inr ⟨first, mem', ⟨rest ++ [rule], rfl⟩, ready',
        carried.move isModule home rules.destination_notMem_homes ready⟩

/-- In a tidy text no rule touches an import other than the two that it edits. -/
lemma clean_of_tidy (isModule : Import.IsModule rules.destination)
    (tidy : Tidy rules.homes text.pieces) : rules.Clean text := by
  intro done rule rest all ready
  have tidy : Tidy rules.homes (rules.reached done text).pieces := by
    refine moves_induction (motive := fun new _ => Tidy rules.homes new.pieces) tidy ?_ all
    rintro rule mem new moved ⟨statement, first, own, -⟩ tidy
    have home : rule.home ∈ rules.homes := List.mem_map_of_mem mem
    exact (tidy.moved isModule home rules.destination_notMem_homes first own).1
  have home : rule.home ∈ rules.homes := List.mem_map_of_mem (by simp [← all])
  exact tidy.orderly.clean home fun _ => (tidy.left home).1.unbroken

/-- A pass that touches no import besides those that it edits keeps the names. Over an orderly text
without opening braces in names and modules it keeps them exactly if the first import of the
destination, where there was none before, goes inside no other one. -/
theorem names_rewrite (isModule : Import.IsModule rules.destination) :
    (rules.Clean text → ∀ name, name ∈ (rules.rewrite text).text.names ↔ name ∈ text.names) ∧
      (Orderly rules.homes text.pieces → (∀ found ∈ text.table, found.Braceless) →
        ((∀ name, name ∈ (rules.rewrite text).text.names ↔ name ∈ text.names) ↔
          (text.importOf? rules.destination = none →
            ∀ rule ∈ (rules.rewrite text).moved.head?, ∀ n ∈ Placement.point? (rule.left text),
              ¬ (rule.left text).Straddled n))) := by
  refine ⟨mem_names_rewrite_of_clean isModule, fun orderly braceless => ?_⟩
  rcases idle_or_carried isModule orderly braceless with
    ⟨idle, same⟩ | ⟨rule, mem, ⟨rest, moved⟩, ready, carried⟩
  · rw [same, idle]
    exact iff_of_true (fun _ => .rfl) fun _ rule mem => absurd mem (by simp)
  · have home : rule.home ∈ rules.homes := List.mem_map_of_mem mem
    obtain ⟨-, -, kept⟩ :=
      orderly.begin_pass isModule home rules.destination_notMem_homes braceless ready
    rw [moved, List.head?_cons]
    simp only [carried.names, Option.mem_some_iff, forall_eq']
    exact kept

/-- A comment among the names holds the directive, and a new import goes behind that. -/
theorem names_rewrite_in_comment :
    let text : Text := "import \x7b\n  Order, // 'use client' pages\n  saveOrder,\n\x7d ".toList ++
      "from \"@/utils/orderStorage\";\n".toList
    Import.IsModule standard.destination ∧
      ¬ ∀ name, name ∈ (standard.rewrite text).text.names ↔ name ∈ text.names := by
  intro text
  have isModule : Import.IsModule standard.destination := by decide
  have before : "Order".toList ∈ text.names := by decide +kernel
  have after : "Order".toList ∉ (standard.rewrite text).text.names := by decide +kernel
  exact ⟨isModule, fun kept => after ((kept _).2 before)⟩

/-- The same comment behind the import does no harm. -/
theorem names_rewrite_behind_import :
    let text : Text := "import \x7b Order, saveOrder \x7d from \"@/utils/orderStorage\";\n".toList ++
      "// 'use client' pages\n".toList
    standard.Clean text ∧ Orderly standard.homes text.pieces ∧
      (∀ found ∈ text.table, found.Braceless) ∧ text.importOf? standard.destination = none ∧
      (standard.rewrite text).moved ≠ [] ∧
      (∀ name, name ∈ (standard.rewrite text).text.names ↔ name ∈ text.names) ∧
      ∀ rule ∈ (standard.rewrite text).moved.head?, ∀ n ∈ Placement.point? (rule.left text),
        ¬ (rule.left text).Straddled n := by
  intro text
  have isModule : Import.IsModule standard.destination := by decide
  have tidy : Tidy standard.homes text.pieces := by decide +kernel
  have braceless : ∀ found ∈ text.table, found.Braceless := by decide +kernel
  have none : text.importOf? standard.destination = none := by decide +kernel
  have moved : (standard.rewrite text).moved ≠ [] := by decide +kernel
  have clean := clean_of_tidy isModule tidy
  obtain ⟨keeps, exactly⟩ := @names_rewrite standard text isModule
  have kept := keeps clean
  exact ⟨clean, tidy.orderly, braceless, none, moved, kept,
    (exactly tidy.orderly braceless).1 kept none⟩

end Rules

end Rehome
