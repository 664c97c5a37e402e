import Rehome.Proofs.Rewrite.Outside

/-!
# Gathering types in a table

What rules make of a table when all of them move their types at once: each entry loses the names
that rules take from its module, and the first entry of the destination gains them. Main statement:
moving one more type is gathering with one more rule (`enlist_withdraw_gather`).
-/

namespace Rehome

namespace Import

/-- What is left of an import when rules have moved their types: nothing if every name went. -/
def drain (moved : List Rule) (found : Import) : List Import :=
  let names := found.names.filter fun name => (⟨name, found.module⟩ : Rule) ∉ moved
  if names = [] ∧ found.names ≠ [] then [] else [⟨names, found.module⟩]

/-- The import with the types of rules listed last, except those that it lists already. -/
def collect (moved : List Rule) (found : Import) : Import :=
  ⟨found.names ++ (moved.map Rule.typeName).filter fun name => name ∉ found.names, found.module⟩

end Import

namespace Table

/-- The table after rules have moved their types to the first entry of `destination`. -/
def gather (destination : Text) (moved : List Rule) : List Import → List Import
  | [] => []
  | found :: rest =>
    if found.module = destination then found.collect moved :: rest.flatMap (Import.drain moved)
    else found.drain moved ++ gather destination moved rest

/-- At most one entry takes names from `home`, and it repeats none. -/
structure Single (home : Text) (table : List Import) : Prop where
  once : (table.map Import.module).count home ≤ 1
  nodup : ∀ found ∈ table, found.module = home → found.names.Nodup

/-! ### Draining -/

section Drain
variable {moved more : List Rule} {found new : Import} {table : List Import}

lemma drain_eq_self (kept : ∀ name ∈ found.names, (⟨name, found.module⟩ : Rule) ∉ moved) :
    found.drain moved = [found] := by
  have names : (found.names.filter fun name => (⟨name, found.module⟩ : Rule) ∉ moved) =
      found.names :=
    List.filter_eq_self.2 fun name mem => decide_eq_true (kept name mem)
  rw [Import.drain, names]
  exact if_neg fun both => both.2 both.1

lemma flatMap_drain_eq_self
    (kept : ∀ found ∈ table, ∀ name ∈ found.names, (⟨name, found.module⟩ : Rule) ∉ moved) :
    table.flatMap (Import.drain moved) = table := by
  induction table with
  | nil => rfl
  | cons found table ih =>
    rw [List.forall_mem_cons] at kept
    rw [List.flatMap_cons, drain_eq_self kept.1, ih kept.2, List.singleton_append]

lemma eq_of_mem_drain (h : new ∈ found.drain moved) :
    new = ⟨found.names.filter fun name => (⟨name, found.module⟩ : Rule) ∉ moved,
      found.module⟩ := by
  rw [Import.drain] at h
  split at h
  · cases h
  · exact List.mem_singleton.1 h

lemma flatMap_drain_drain :
    (found.drain moved).flatMap (Import.drain more) = found.drain (moved ++ more) := by
  have names : ((found.names.filter fun name => (⟨name, found.module⟩ : Rule) ∉ moved).filter
      fun name => (⟨name, found.module⟩ : Rule) ∉ more) =
      found.names.filter fun name => (⟨name, found.module⟩ : Rule) ∉ moved ++ more := by
    rw [List.filter_filter]
    congr 1
    funext name
    simp [not_or, Bool.and_comm]
  rw [Import.drain, Import.drain, ← names]
  by_cases empty : (found.names.filter fun name => (⟨name, found.module⟩ : Rule) ∉ moved) = []
  · rw [empty]
    by_cases none : found.names = []
    · simp [none, Import.drain]
    · simp [none]
  · rw [if_neg fun both => empty both.1, List.flatMap_singleton, Import.drain]
    have some : found.names ≠ [] := by
      rintro none
      simp [none] at empty
    simp only [ne_eq, empty, not_false_eq_true, and_true, some]

lemma flatMap_drain_append :
    (table.flatMap (Import.drain moved)).flatMap (Import.drain more) =
      table.flatMap (Import.drain (moved ++ more)) := by
  rw [List.flatMap_assoc]
  congr 1
  funext found
  exact flatMap_drain_drain

/-- To take a name out of an import that repeats none is to drain it. -/
lemma without_eq_drain {name : Text} (nodup : found.names.Nodup) (mem : name ∈ found.names) :
    found.without name = found.drain [⟨name, found.module⟩] := by
  have names : (found.names.filter fun other => (⟨other, found.module⟩ : Rule) ∉
      [(⟨name, found.module⟩ : Rule)]) = found.names.erase name := by
    rw [nodup.erase_eq_filter]
    congr 1
    funext other
    simp [bne, beq_eq_decide]
  have solid := List.ne_nil_of_mem mem
  rw [Import.drain, names, Import.without]
  split
  case h_1 none => rw [if_pos ⟨none, solid⟩]
  case h_2 => rw [if_neg fun both => ‹¬ _› both.1]

end Drain

/-! ### Single entries of a home -/

namespace Single

variable {home : Text} {found : Import} {rest table : List Import}

lemma iff_and : Single home table ↔ (table.map Import.module).count home ≤ 1 ∧
    ∀ found ∈ table, found.module = home → found.names.Nodup :=
  ⟨fun h => ⟨h.once, h.nodup⟩, fun h => ⟨h.1, h.2⟩⟩

instance : DecidablePred (Single home) :=
  fun _ => decidable_of_iff _ iff_and.symm

lemma tail (h : Single home (found :: rest)) : Single home rest := by
  refine ⟨?_, fun other mem => h.nodup other (List.mem_cons_of_mem _ mem)⟩
  have once := h.once
  rw [List.map_cons] at once
  exact (List.count_le_count_cons ..).trans once

lemma append_right {front back : List Import} (h : Single home (front ++ back)) :
    Single home back := by
  induction front with
  | nil => exact h
  | cons found front ih => exact ih h.tail

lemma ne_of_mem_tail (h : Single home (found :: rest)) (same : found.module = home) :
    ∀ other ∈ rest, other.module ≠ home := by
  intro other mem eq
  have once := h.once
  have more : 0 < (rest.map Import.module).count home :=
    List.count_pos_iff.2 (List.mem_map.2 ⟨other, mem, eq⟩)
  rw [List.map_cons, same, List.count_cons_self] at once
  omega

/-- To take a type out of the only entry of its home is to drain the table. -/
lemma withdraw_eq_flatMap {rule : Rule} (h : Single rule.home table)
    (listed : ∃ found ∈ table, found.module = rule.home ∧ rule.typeName ∈ found.names) :
    withdraw rule table = table.flatMap (Import.drain [rule]) := by
  have kept : ∀ part : List Import, (∀ other ∈ part, other.module ≠ rule.home) →
      part.flatMap (Import.drain [rule]) = part := by
    intro part others
    refine flatMap_drain_eq_self fun other mem name _ held => others other mem ?_
    exact congrArg Rule.home (List.mem_singleton.1 held)
  obtain ⟨origin, mem, home, own⟩ := listed
  rcases revise_cases rule.home (fun found => found.without rule.typeName) table with
    ⟨none, -⟩ | ⟨front, found, back, rfl, same, before, eq⟩
  · exact absurd home (none origin mem)
  · have behind := h.append_right.ne_of_mem_tail same
    -- the entry that lists the type is the only one of its home
    have only : origin = found := by
      rcases List.mem_append.1 mem with mem | mem
      · exact absurd home (before origin mem)
      · exact (List.mem_cons.1 mem).resolve_right fun mem => behind origin mem home
    subst only
    have nodup := h.nodup origin (by simp) home
    rw [withdraw, eq, List.flatMap_append, List.flatMap_cons, kept front before,
      kept back behind, without_eq_drain nodup own, home]

end Single

/-! ### Gathering -/

section Gather
variable {destination : Text} {moved : List Rule} {rule : Rule} {table : List Import}

lemma including_collect {found : Import} (fresh : rule.typeName ∉ moved.map Rule.typeName) :
    (found.collect moved).including rule.typeName = found.collect (moved ++ [rule]) := by
  rw [Import.including, Import.collect, Import.collect, List.map_append, List.filter_append]
  by_cases listed : rule.typeName ∈ found.names
  · rw [if_pos (by simp [listed])]
    simp [listed]
  · have absent : rule.typeName ∉ found.names ++
        (moved.map Rule.typeName).filter fun name => name ∉ found.names := by
      rw [List.mem_append, List.mem_filter]
      rintro (mem | ⟨mem, -⟩)
      · exact listed mem
      · exact fresh mem
    rw [if_neg absent]
    simp [listed]

lemma gather_append {front back : List Import} {found : Import}
    (others : ∀ other ∈ front, other.module ≠ found.module) :
    gather found.module moved (front ++ found :: back) =
      front.flatMap (Import.drain moved) ++
        found.collect moved :: back.flatMap (Import.drain moved) := by
  induction front with
  | nil => exact if_pos rfl
  | cons other front ih =>
    rw [List.forall_mem_cons] at others
    rw [List.cons_append, gather, if_neg others.1, ih others.2, List.flatMap_cons,
      List.append_assoc]

lemma gather_nil : gather destination [] table = table := by
  have none : ∀ table : List Import, table.flatMap (Import.drain []) = table :=
    fun table => flatMap_drain_eq_self fun _ _ _ _ => List.not_mem_nil
  induction table with
  | nil => rfl
  | cons found rest ih =>
    rw [gather, ih, none, drain_eq_self fun _ _ => List.not_mem_nil]
    by_cases same : found.module = destination
    · rw [if_pos same]
      simp [Import.collect]
    · rw [if_neg same]
      rfl

/-- Moving one more type is gathering with one more rule. -/
lemma enlist_withdraw_gather {slot : Nat} (away : rule.home ≠ destination)
    (fresh : rule.typeName ∉ moved.map Rule.typeName)
    (present : ∃ found ∈ table, found.module = destination)
    (single : Single rule.home (gather destination moved table))
    (listed : ∃ found ∈ gather destination moved table,
      found.module = rule.home ∧ rule.typeName ∈ found.names) :
    enlist rule.typeName destination slot (withdraw rule (gather destination moved table)) =
      gather destination (moved ++ [rule]) table := by
  obtain ⟨front, found, back, rfl, rfl, others⟩ := exists_first present
  rw [single.withdraw_eq_flatMap listed, gather_append others, gather_append others]
  have kept : (found.collect moved).drain [rule] = [found.collect moved] := by
    refine drain_eq_self fun name _ held => away ?_
    exact (congrArg Rule.home (List.mem_singleton.1 held)).symm
  rw [List.flatMap_append, List.flatMap_cons, flatMap_drain_append, flatMap_drain_append, kept,
    List.singleton_append, enlist, if_pos ⟨found.collect moved, by simp, rfl⟩, revise_append]
  · have first := revise_cons_self (f := fun other => [other.including rule.typeName])
      (found.collect moved) (back.flatMap (Import.drain (moved ++ [rule])))
    rw [← including_collect fresh]
    exact congrArg _ first
  · intro other mem
    obtain ⟨origin, mem, held⟩ := List.mem_flatMap.1 mem
    rw [eq_of_mem_drain held]
    exact others origin mem

end Gather

end Table

end Rehome
