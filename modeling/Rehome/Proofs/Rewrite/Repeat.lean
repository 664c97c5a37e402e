import Mathlib.Data.List.Count
import Mathlib.Data.List.Nodup
import Rehome.Proofs.Rewrite.Batch

/-!
# A second pass

A pass looks at the first import of each home and takes one of equal names from it, so that a second
pass may find more to move. Main statement: a second pass does nothing exactly if the first left no
rule ready, and in a tidy text this can be told from the names that the homes listed at first
(`Rules.rewrite_rewrite`).
-/

namespace Rehome

namespace Table

/-- The names that each entry of a home lists. -/
def lists (home : Text) (table : List Import) : List (List Text) :=
  (table.filter fun found => found.module = home).map Import.names

/-- The lists with `name` struck off the first of them, once; a list left without names goes. -/
def strike (lists : List (List Text)) (name : Text) : List (List Text) :=
  match lists with
  | [] => []
  | names :: rest =>
    if name ∉ names then names :: rest
    else if names.erase name = [] then rest
    else names.erase name :: rest

end Table

namespace Rules

/-- The types that rules may take from a home, in the order of the rules. -/
def takenFrom (rules : Rules) (home : Text) (table : List Import) : List Text :=
  (rules.list.filter fun rule => rule.home = home ∧ rule.Free rules.destination table).map
    Rule.typeName

/-- The lists of a home after its types have been struck off one by one. -/
def leftIn (rules : Rules) (home : Text) (table : List Import) : List (List Text) :=
  (rules.takenFrom home table).foldl Table.strike (Table.lists home table)

end Rules

/-! ### Lists of a home -/

namespace Table

variable {home name destination typeName : Text} {rule : Rule} {table front back : List Import}

@[simp] lemma lists_append :
    lists home (front ++ back) = lists home front ++ lists home back := by
  rw [lists, List.filter_append, List.map_append, lists, lists]

lemma lists_cons (found : Import) (rest : List Import) :
    lists home (found :: rest) =
      if found.module = home then found.names :: lists home rest else lists home rest := by
  rw [lists, List.filter_cons]
  by_cases same : found.module = home
  · simp [same, lists]
  · simp [same, lists]

lemma lists_of_forall_ne (others : ∀ found ∈ table, found.module ≠ home) :
    lists home table = [] := by
  rw [lists, List.filter_eq_nil_iff.2 fun found mem => by simpa using others found mem,
    List.map_nil]

lemma strike_eq_self {lists : List (List Text)}
    (free : ∀ names, lists.head? = some names → name ∉ names) : strike lists name = lists := by
  cases lists with
  | nil => rfl
  | cons names rest => exact if_pos (free names rfl)

lemma foldl_strike_nil (types : List Text) : types.foldl strike [] = [] := by
  induction types with
  | nil => rfl
  | cons name types ih => exact ih

/-- Types struck off a single list are taken from it once each. -/
lemma foldl_strike_singleton (types names : List Text) :
    (∀ left ∈ (types.foldl strike [names]).head?, name ∉ left) ↔ name ∉ names.diff types := by
  induction types generalizing names with
  | nil => simp
  | cons first types ih =>
    rw [List.foldl_cons, strike, List.diff_cons]
    by_cases own : first ∈ names
    · rw [if_neg (not_not_intro own)]
      by_cases last : names.erase first = []
      · rw [if_pos last, last, foldl_strike_nil]
        simp
      · rw [if_neg last]
        exact ih _
    · rw [if_pos own, List.erase_of_not_mem own]
      exact ih names

lemma lists_revise {module : Text} {f : Import → List Import} (apart : module ≠ home)
    (keeps : ∀ found, ∀ new ∈ f found, new.module = found.module) :
    lists home (revise module f table) = lists home table := by
  rcases revise_cases module f table with ⟨-, eq⟩ | ⟨front, found, back, rfl, rfl, -, eq⟩
  · rw [eq]
  · have none : lists home (f found) = [] :=
      lists_of_forall_ne fun new mem same => apart ((keeps found new mem).symm.trans same)
    rw [eq, lists_append, lists_append, lists_append, none, lists_cons, if_neg apart,
      List.nil_append]

lemma lists_withdraw (apart : rule.home ≠ home) :
    lists home (withdraw rule table) = lists home table :=
  lists_revise apart fun _ _ mem => module_of_mem_without mem

/-- Taking a type out of the first entry that lists it strikes it off the first list. -/
lemma lists_withdraw_self {names : List Text}
    (first : (lists rule.home table).head? = some names) (own : rule.typeName ∈ names) :
    lists rule.home (withdraw rule table) = strike (lists rule.home table) rule.typeName := by
  rcases revise_cases rule.home (fun found => found.without rule.typeName) table with
    ⟨none, -⟩ | ⟨front, found, back, rfl, same, before, eq⟩
  · rw [lists_of_forall_ne none] at first
    cases first
  · rw [lists_append, lists_of_forall_ne before, List.nil_append, lists_cons, if_pos same]
      at first ⊢
    cases Option.some.inj first
    rw [withdraw, eq, lists_append, lists_of_forall_ne before, List.nil_append, lists_append,
      strike, if_neg (not_not_intro own), Import.without]
    cases left : found.names.erase rule.typeName with
    | nil => rfl
    | cons name rest => simp [lists, same]

lemma lists_enlist {slot : Nat} (apart : destination ≠ home) (bound : slot ≤ table.length) :
    lists home (enlist typeName destination slot table) = lists home table := by
  rw [enlist]
  split
  case isTrue =>
    refine lists_revise apart fun found new mem => ?_
    cases List.mem_singleton.1 mem
    exact module_including _ _
  case isFalse =>
    obtain ⟨front, back, rfl, inserted⟩ := exists_insertIdx bound
    rw [inserted, lists_append, lists_append, lists_cons, if_neg apart]

lemma importOf?_names {text : Text} :
    (text.importOf? home).map (fun statement => statement.names) =
      (lists home text.table).head? := by
  rw [lists, List.head?_map, List.head?_filter, Text.table, List.find?_map, Option.map_map]
  rfl

end Table

lemma Rule.ready_iff {rule : Rule} {destination text : Text} :
    rule.Ready destination text ↔ rule.Free destination text.table ∧
      ∃ names, (Table.lists rule.home text.table).head? = some names ∧ rule.typeName ∈ names := by
  rw [Table.free_iff, ← Table.rival?_eq, ← Table.importOf?_names]
  constructor
  · rintro ⟨statement, first, own, none⟩
    exact ⟨none, statement.names, by rw [first]; rfl, own⟩
  · rintro ⟨none, names, first, own⟩
    obtain ⟨statement, found, rfl⟩ := Option.map_eq_some_iff.1 first
    exact ⟨statement, found, own, none⟩

/-! ### What a pass leaves -/

namespace Pass

/-- A pass that began at `text` and has tried the rules `done` has struck the types that were free
off the lists of their homes. -/
structure Spends (rules : Rules) (text : Text) (done : List Rule) (pass : Pass) : Prop where
  tidy : Tidy rules.homes pass.text.pieces
  free : ∀ rule ∈ rules.list,
    (rule.Free rules.destination pass.text.table ↔ rule.Free rules.destination text.table)
  lists : ∀ home, home ≠ rules.destination → Table.lists home pass.text.table =
    ((done.filter fun rule => rule.home = home ∧ rule.Free rules.destination text.table).map
      Rule.typeName).foldl Table.strike (Table.lists home text.table)

variable {rules : Rules} {text : Text} {done : List Rule} {pass : Pass} {rule : Rule}

lemma Spends.step (h : Spends rules text done pass)
    (isModule : Import.IsModule rules.destination) (mem : rule ∈ rules.list) :
    Spends rules text (done ++ [rule]) (step rules.destination pass rule) := by
  have home : rule.home ∈ rules.homes := List.mem_map_of_mem mem
  by_cases ready : rule.Ready rules.destination pass.text
  · obtain ⟨free, names, head, listed⟩ := Rule.ready_iff.1 ready
    have eq := step_of_ready ready
    obtain ⟨statement, first, own, -⟩ := ready
    obtain ⟨tidy, bound, table⟩ :=
      h.tidy.moved isModule home rules.destination_notMem_homes first own
    rw [eq]
    refine ⟨tidy, fun other within => ?_, fun home away => ?_⟩
    · rw [← h.free other within, Table.free_iff, Table.free_iff, Table.third?_eq, Table.third?_eq]
      dsimp only
      -- another rule is about another type; this one took it from its home, where it may be
      have apart :
          other.typeName ≠ rule.typeName ∨ rule.home ∈ [other.home, rules.destination] := by
        by_cases same : other.typeName = rule.typeName
        · cases List.inj_on_of_nodup_map rules.nodup within mem same
          exact .inr List.mem_cons_self
        · exact .inl same
      rw [table, Table.sources_enlist (by simp) bound, Table.sources_withdraw apart]
    · dsimp only
      rw [table, Table.lists_enlist (Ne.symm away) bound, List.filter_append, List.map_append,
        List.foldl_append, ← h.lists home away]
      by_cases own : rule.home = home
      · subst own
        have free' := (h.free rule mem).1 free
        simp [Table.lists_withdraw_self head listed, free']
      · simp [Table.lists_withdraw own, own]
  -- a type that is free but does not move is not in the first list, and striking it does nothing
  · obtain ⟨same, -⟩ := step_of_not_ready ready
    refine ⟨by rw [same]; exact h.tidy, by rw [same]; exact h.free, fun home away => ?_⟩
    rw [same, h.lists home away, List.filter_append, List.map_append, List.foldl_append,
      ← h.lists home away]
    by_cases own : rule.home = home ∧ rule.Free rules.destination text.table
    · have free : ∀ names, (Table.lists home pass.text.table).head? = some names →
          rule.typeName ∉ names := by
        intro names first listed
        rw [← own.1] at first
        exact ready (Rule.ready_iff.2 ⟨(h.free rule mem).2 own.2, names, first, listed⟩)
      simp [own, Table.strike_eq_self free]
    · simp [own]

end Pass

namespace Rules

lemma mem_takenFrom {rules : Rules} {home name : Text} {table : List Import} :
    name ∈ rules.takenFrom home table ↔ ∃ rule ∈ rules.list, rule.home = home ∧
      rule.Free rules.destination table ∧ rule.typeName = name := by
  simp [takenFrom, and_assoc]

lemma nodup_takenFrom (rules : Rules) (home : Text) (table : List Import) :
    (rules.takenFrom home table).Nodup :=
  rules.nodup.sublist (List.filter_sublist.map _)

/-- What a pass over a tidy text leaves to a second one, in terms of the first table. -/
lemma rewrite_rewrite_idle_iff {rules : Rules} {text : Text}
    (isModule : Import.IsModule rules.destination) (tidy : Tidy rules.homes text.pieces) :
    (∀ rule ∈ rules.list, ¬ rule.Ready rules.destination (rules.rewrite text).text) ↔
      ∀ home ∈ rules.homes, ∀ names ∈ (rules.leftIn home text.table).head?,
        ∀ name ∈ rules.takenFrom home text.table, name ∉ names := by
  have spends : Pass.Spends rules text rules.list (rules.rewrite text) := by
    refine rewrite_induction ?_ fun done pass rule rest all h => ?_
    · exact ⟨tidy, fun _ _ => .rfl, fun _ _ => rfl⟩
    · exact h.step isModule (by simp [← all])
  constructor
  · intro none home _ names head name taken listed
    obtain ⟨rule, mem, rfl, free, rfl⟩ := mem_takenFrom.1 taken
    have lists := spends.lists rule.home (rules.away rule mem)
    exact none rule mem (Rule.ready_iff.2
      ⟨(spends.free rule mem).2 free, names, (congrArg List.head? lists).trans head, listed⟩)
  · intro spent rule mem ready
    obtain ⟨free, names, head, listed⟩ := Rule.ready_iff.1 ready
    have lists := spends.lists rule.home (rules.away rule mem)
    have taken : rule.typeName ∈ rules.takenFrom rule.home text.table :=
      mem_takenFrom.2 ⟨rule, mem, rfl, (spends.free rule mem).1 free, rfl⟩
    exact spent rule.home (List.mem_map_of_mem mem) names
      ((congrArg List.head? lists).symm.trans head) rule.typeName taken listed

/-- A second pass moves nothing and changes nothing exactly if the first left no rule ready. In a
tidy text that is so exactly if no home still lists, in the first list that is left there, a type
that rules take from it. -/
theorem rewrite_rewrite {rules : Rules} {text : Text} :
    let first := rules.rewrite text
    let second := rules.rewrite first.text
    (second.moved = [] ∧ second.text = first.text ↔
        ∀ rule ∈ rules.list, ¬ rule.Ready rules.destination first.text) ∧
      (Import.IsModule rules.destination → Tidy rules.homes text.pieces →
        (second.moved = [] ∧ second.text = first.text ↔
          ∀ home ∈ rules.homes, ∀ names ∈ (rules.leftIn home text.table).head?,
            ∀ name ∈ rules.takenFrom home text.table, name ∉ names)) := by
  intro first second
  refine ⟨rewrite_idle_iff, fun isModule tidy => ?_⟩
  exact rewrite_idle_iff.trans (rewrite_rewrite_idle_iff isModule tidy)

/-- The second import of a home keeps its name, for the first is left in front of it. -/
theorem rewrite_rewrite_behind_first :
    let rules : Rules := ⟨"t".toList, [⟨"A".toList, "a".toList⟩], by decide, by decide⟩
    let text : Text := "import \x7b A, Z \x7d from 'a'\nimport \x7b A \x7d from 'a'\n".toList
    let first := rules.rewrite text
    Import.IsModule rules.destination ∧ Tidy rules.homes text.pieces ∧
      first.movedNames = ["A".toList] ∧ (rules.rewrite first.text).moved = [] ∧
      (rules.rewrite first.text).text = first.text := by
  intro rules text first
  have isModule : Import.IsModule rules.destination := by decide
  have tidy : Tidy rules.homes text.pieces := by decide +kernel
  have moved : first.movedNames = ["A".toList] := by decide +kernel
  refine ⟨isModule, tidy, moved, (rewrite_rewrite.2 isModule tidy).2 ?_⟩
  decide +kernel

/-- A name that is listed twice in its home moves once in each pass. -/
theorem rewrite_rewrite_repeated :
    let text : Text := "import \x7b Order, Order \x7d from \"@/utils/orderStorage\";\n".toList
    let first := standard.rewrite text
    let second := standard.rewrite first.text
    first.movedNames = ["Order".toList] ∧ second.movedNames = ["Order".toList] ∧
      second.text ≠ first.text := by
  decide +kernel

/-- Where every home is imported by one statement at most, a second pass is idle exactly if no
statement repeats a type that rules take from it. -/
theorem rewrite_rewrite_iff_of_single {rules : Rules} {text : Text}
    (isModule : Import.IsModule rules.destination) (tidy : Tidy rules.homes text.pieces)
    (single : ∀ home ∈ rules.homes, (Table.lists home text.table).length ≤ 1) :
    (rules.rewrite (rules.rewrite text).text).moved = [] ∧
        (rules.rewrite (rules.rewrite text).text).text = (rules.rewrite text).text ↔
      ∀ home ∈ rules.homes, ∀ names ∈ Table.lists home text.table,
        ∀ name ∈ rules.takenFrom home text.table, names.count name ≤ 1 := by
  rw [rewrite_idle_iff, rewrite_rewrite_idle_iff isModule tidy]
  refine forall_congr' fun home => forall_congr' fun mem => ?_
  have unique := rules.nodup_takenFrom home text.table
  rw [leftIn]
  have short := single home mem
  cases only : Table.lists home text.table with
  | nil => simp [Table.foldl_strike_nil]
  | cons names rest =>
    cases rest with
    | cons other rest => simp [only] at short
    | nil =>
      rw [List.forall_mem_singleton]
      have once : ∀ name ∈ rules.takenFrom home text.table,
          ((∀ left ∈ ((rules.takenFrom home text.table).foldl Table.strike [names]).head?,
            name ∉ left) ↔ names.count name ≤ 1) := by
        intro name taken
        rw [Table.foldl_strike_singleton, ← List.count_eq_zero, List.count_diff,
          List.count_eq_one_of_mem unique taken]
        omega
      constructor
      · intro spent name taken
        exact (once name taken).1 fun left head => spent left head name taken
      · intro few left head name taken
        exact (once name taken).2 (few name taken) left head

end Rules

end Rehome
