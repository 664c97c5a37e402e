import Mathlib.Logic.Function.Iterate
import Rehome.Proofs.Rewrite.Outside

/-!
# Passes settle

A rule that moves its type takes one name out of an import of its home, and no rule lists a name
there. Main statement: over a tidy text each pass lowers the number of names that homes list by the
number of types that it moves, so that after as many passes as there are such names no pass does
anything (`Rules.rewrite_settles`).
-/

namespace Rehome

namespace Rules

/-- How many names the imports of homes list, all together. -/
def stock (rules : Rules) (table : List Import) : Nat :=
  ((table.filter fun found => found.module ∈ rules.homes).flatMap Import.names).length

/-- The text after some passes. -/
def after (rules : Rules) (passes : Nat) (text : Text) : Text :=
  (fun text => (rules.rewrite text).text)^[passes] text

variable {rules : Rules} {table front back : List Import} {found : Import} {name : Text}

/-! ### What an edit of the table takes -/

@[simp] lemma stock_append :
    rules.stock (front ++ back) = rules.stock front + rules.stock back := by
  rw [stock, List.filter_append, List.flatMap_append, List.length_append, stock, stock]

lemma stock_cons (found : Import) (rest : List Import) : rules.stock (found :: rest) =
    (if found.module ∈ rules.homes then found.names.length else 0) + rules.stock rest := by
  rw [stock, List.filter_cons]
  by_cases home : found.module ∈ rules.homes
  · simp [home, stock]
  · simp [home, stock]

lemma stock_of_forall_notMem (away : ∀ found ∈ table, found.module ∉ rules.homes) :
    rules.stock table = 0 := by
  rw [stock, List.filter_eq_nil_iff.2 fun found mem => by simpa using away found mem]
  rfl

/-- What is left of an import of a home lists one name less. -/
lemma stock_without (home : found.module ∈ rules.homes) (own : name ∈ found.names) :
    rules.stock (found.without name) + 1 = found.names.length := by
  have shorter := List.length_erase_of_mem own
  have some := List.length_pos_of_mem own
  rw [Import.without]
  split
  case h_1 none =>
    rw [none, List.length_nil] at shorter
    rw [stock_of_forall_notMem (List.forall_mem_nil _)]
    omega
  case h_2 =>
    rw [stock_cons, if_pos home, stock_of_forall_notMem (List.forall_mem_nil _)]
    dsimp only
    omega

/-- Listing a type in the destination takes nothing and adds nothing. -/
lemma stock_enlist {destination : Text} {slot : Nat} (away : destination ∉ rules.homes)
    (bound : slot ≤ table.length) :
    rules.stock (Table.enlist name destination slot table) = rules.stock table := by
  rw [Table.enlist]
  split
  case isTrue =>
    rcases Table.revise_cases destination (fun found => [found.including name]) table with
      ⟨-, eq⟩ | ⟨front, found, back, rfl, rfl, -, eq⟩
    · rw [eq]
    · rw [eq, stock_append, stock_append, stock_append, stock_cons, stock_cons, if_neg away,
        Table.module_including, if_neg away, stock_of_forall_notMem (List.forall_mem_nil _)]
  case isFalse =>
    obtain ⟨front, back, rfl, inserted⟩ := Table.exists_insertIdx bound
    rw [inserted, stock_append, stock_append, stock_cons, if_neg away, Nat.zero_add]

/-- A rule takes one name from its home. -/
lemma stock_withdraw {rule : Rule} {text : Text} {statement : Statement}
    (home : rule.home ∈ rules.homes) (first : text.importOf? rule.home = some statement)
    (own : rule.typeName ∈ statement.names) :
    rules.stock (Table.withdraw rule text.table) + 1 = rules.stock text.table := by
  obtain ⟨front, back, table, left⟩ := Table.exists_withdraw_eq first
  have same : statement.module = rule.home := by
    obtain ⟨_, _, _, _, _, _, same, _⟩ := Text.exists_of_importOf?_eq_some first
    exact same
  have home' : statement.module ∈ rules.homes := same ▸ home
  have taken := stock_without home' own
  rw [left, table, stock_append, stock_append, stock_append, stock_cons, if_pos home']
  omega

end Rules

/-! ### A pass -/

namespace Rules

/-- Since the text `start` each of the moves has cost one name of a home. -/
structure Pays (rules : Rules) (start text : Text) (moved : List Rule) : Prop where
  tidy : Tidy rules.homes text.pieces
  balance : rules.stock text.table + moved.length = rules.stock start.table

variable {rules : Rules} {start text : Text} {moved : List Rule} {rule : Rule}

lemma Pays.move (h : Pays rules start text moved) (isModule : Import.IsModule rules.destination)
    (mem : rule ∈ rules.list) (ready : rule.Ready rules.destination text) :
    Pays rules start ((rule.left text).enlist rule.typeName rules.destination)
      (moved ++ [rule]) := by
  obtain ⟨statement, first, own, -⟩ := ready
  have home : rule.home ∈ rules.homes := List.mem_map_of_mem mem
  have away := rules.destination_notMem_homes
  obtain ⟨tidy, bound, table⟩ := h.tidy.moved isModule home away first own
  have taken := stock_withdraw home first own
  have kept := @stock_enlist rules _ rule.typeName _ _ away bound
  have balance := h.balance
  refine ⟨tidy, ?_⟩
  rw [table, kept, List.length_append, List.length_singleton]
  omega

lemma pays_rewrite (isModule : Import.IsModule rules.destination)
    (tidy : Tidy rules.homes text.pieces) :
    Pays rules text (rules.rewrite text).text (rules.rewrite text).moved := by
  refine moves_induction (motive := Pays rules text) ⟨tidy, rfl⟩ ?_ (List.append_nil _)
  intro rule mem new moved ready h
  exact h.move isModule mem ready

/-! ### Pass after pass -/

lemma after_succ (n : Nat) (text : Text) :
    rules.after (n + 1) text = (rules.rewrite (rules.after n text)).text :=
  Function.iterate_succ_apply' _ n text

lemma tidy_after (isModule : Import.IsModule rules.destination)
    (tidy : Tidy rules.homes text.pieces) (n : Nat) : Tidy rules.homes (rules.after n text).pieces := by
  induction n with
  | zero => exact tidy
  | succ n ih =>
    rw [after_succ]
    exact (pays_rewrite isModule ih).tidy

/-- A pass moves nothing, or all passes up to it have taken a name. -/
lemma moved_eq_nil_or_stock_le (isModule : Import.IsModule rules.destination)
    (tidy : Tidy rules.homes text.pieces) (n : Nat) :
    (rules.rewrite (rules.after n text)).moved = [] ∨
      rules.stock (rules.after (n + 1) text).table + (n + 1) ≤ rules.stock text.table := by
  have paid : ∀ n, (rules.rewrite (rules.after n text)).moved = [] ∨
      rules.stock (rules.after (n + 1) text).table + 1 ≤
        rules.stock (rules.after n text).table := by
    intro n
    have balance := (pays_rewrite isModule (tidy_after isModule tidy n)).balance
    rw [← after_succ] at balance
    rcases List.eq_nil_or_concat (rules.rewrite (rules.after n text)).moved with none | ⟨_, _, some⟩
    · exact .inl none
    · rw [some, List.length_concat] at balance
      exact .inr (by omega)
  induction n with
  | zero => exact paid 0
  | succ n ih =>
    rcases ih with idle | spent
    -- a pass that finds what an idle one found is idle too
    · have still : rules.after (n + 1) text = rules.after n text := by
        rw [after_succ, text_rewrite_of_moved_eq_nil idle]
      rw [still]
      exact .inl idle
    · exact (paid (n + 1)).imp_right fun less => by omega

/-- Each pass takes as many names from the homes as it moves types. After as many passes as the
homes listed names at first, a pass moves nothing and changes nothing. -/
theorem rewrite_settles (isModule : Import.IsModule rules.destination)
    (tidy : Tidy rules.homes text.pieces) :
    (∀ n, rules.stock (rules.after (n + 1) text).table +
        (rules.rewrite (rules.after n text)).movedNames.length =
          rules.stock (rules.after n text).table) ∧
      ∀ n, rules.stock text.table ≤ n → (rules.rewrite (rules.after n text)).movedNames = [] ∧
        (rules.rewrite (rules.after n text)).text = rules.after n text := by
  refine ⟨fun n => ?_, fun n enough => ?_⟩
  · have balance := (pays_rewrite isModule (tidy_after isModule tidy n)).balance
    rwa [after_succ, Pass.movedNames, List.length_map]
  · have idle : (rules.rewrite (rules.after n text)).moved = [] := by
      refine (moved_eq_nil_or_stock_le isModule tidy n).resolve_right fun spent => ?_
      omega
    exact ⟨by rw [Pass.movedNames, idle, List.map_nil], text_rewrite_of_moved_eq_nil idle⟩

/-- The same name in two imports of its home, and in one of them twice, takes three passes. -/
theorem rewrite_settles_repeated :
    let rules : Rules := ⟨"t".toList, [⟨"A".toList, "a".toList⟩], by decide, by decide⟩
    let text : Text := "import \x7b A, A \x7d from 'a'\nimport \x7b A \x7d from 'a'\n".toList
    Import.IsModule rules.destination ∧ Tidy rules.homes text.pieces ∧
      rules.stock text.table = 3 ∧
      (rules.rewrite (rules.after 2 text)).movedNames = ["A".toList] ∧
      (rules.rewrite (rules.after 3 text)).movedNames = [] ∧
      (rules.rewrite (rules.after 3 text)).text = rules.after 3 text := by
  intro rules text
  have isModule : Import.IsModule rules.destination := by decide
  have tidy : Tidy rules.homes text.pieces := by decide +kernel
  have stock : rules.stock text.table = 3 := by decide +kernel
  have third : (rules.rewrite (rules.after 2 text)).movedNames = ["A".toList] := by decide +kernel
  exact ⟨isModule, tidy, stock, third, (rewrite_settles isModule tidy).2 3 stock.le⟩

end Rules

end Rehome
