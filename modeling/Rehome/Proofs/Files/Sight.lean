import Rehome.Files.Walk
import Rehome.Proofs.Files.Tree

/-!
# What a walk comes to

Real directories lead from a directory to what lies below it, and a link leads nowhere. Main
statements: a walk comes to what they lead to (`Listing.mem_walk_iff`), in the order of the names on
the way (`Listing.pairwise_walk`).
-/

namespace Rehome

namespace Listing

/-- Real directories lead to a node: each name on the way but the last is that of a directory. -/
inductive Reaches : Listing → List Bytes → Node → Prop where
  | here {listing inside : Listing} {name : Bytes} {node : Node}
      (found : listing.find? name = some (node, inside)) : Reaches listing [name] node
  | deeper {listing inside : Listing} {name : Bytes} {names : List Bytes} {node : Node}
      {rights : Rights} (found : listing.find? name = some (.directory rights, inside))
      (way : Reaches inside names node) : Reaches listing (name :: names) node

/-- All directories on the way to a place may be entered. -/
def passes (listing : Listing) : List Bytes → Bool
  | [] | [_] => true
  | name :: next :: more =>
    match listing.find? name with
    | none => false
    | some (node, inside) => node.isEnterable && inside.passes (next :: more)

variable {listing inside rest : Listing} {name first : Bytes} {names more : List Bytes}
  {node held : Node} {sight : Sight}

/-! ### Ways through directories -/

lemma Reaches.exists_head (h : listing.Reaches names node) :
    ∃ first more, names = first :: more ∧ first ∈ listing.names := by
  have listed : ∀ {name entry}, listing.find? name = some entry → name ∈ listing.names := by
    intro name entry found
    by_contra absent
    cases (find?_eq_none_iff.2 absent).symm.trans found
  cases h with
  | here found => exact ⟨_, [], rfl, listed found⟩
  | deeper found => exact ⟨_, _, rfl, listed found⟩

lemma Reaches.ne_nil (h : listing.Reaches names node) : names ≠ [] := by
  obtain ⟨first, more, rfl, -⟩ := h.exists_head
  exact List.cons_ne_nil first more

lemma not_reaches_nil : ¬ nil.Reaches names node := by
  intro h
  obtain ⟨first, more, -, mem⟩ := h.exists_head
  cases mem

lemma Reaches.node?_eq (h : listing.Reaches names node) : listing.node? names = some node := by
  induction h with
  | here found =>
    rw [node?, found]
    rfl
  | deeper found way ih =>
    rw [node?, found]
    exact (if_neg way.ne_nil).trans ih

lemma reaches_entry_iff (fresh : name ∉ rest.names) :
    (entry name held inside rest).Reaches names node ↔
      (names = [name] ∧ node = held) ∨
        (held.isDirectory = true ∧ ∃ more, names = name :: more ∧ inside.Reaches more node) ∨
          rest.Reaches names node := by
  have own : (entry name held inside rest).find? name = some (held, inside) := if_pos rfl
  have other : ∀ {next found}, rest.find? next = some found →
      (entry name held inside rest).find? next = some found := by
    rintro next found listed
    rw [find?, if_neg, listed]
    rintro rfl
    cases (find?_eq_none_iff.2 fresh).symm.trans listed
  constructor
  · intro h
    cases h with
    | here found =>
      rw [find?] at found
      split at found
      case isTrue same =>
        cases found
        exact .inl ⟨by rw [same], rfl⟩
      case isFalse => exact .inr (.inr (.here found))
    | deeper found way =>
      rw [find?] at found
      split at found
      case isTrue same =>
        cases found
        exact .inr (.inl ⟨rfl, _, by rw [same], way⟩)
      case isFalse => exact .inr (.inr (.deeper found way))
  · rintro (⟨rfl, rfl⟩ | ⟨directory, more, rfl, way⟩ | h)
    · exact .here own
    · cases held with
      | file content access => cases directory
      | link target => cases directory
      | device content access => cases directory
      | directory rights => exact .deeper own way
    · cases h with
      | here found => exact .here (other found)
      | deeper found way => exact .deeper (other found) way

lemma passes_entry_self (below : more ≠ []) :
    (entry name held inside rest).passes (name :: more) =
      (held.isEnterable && inside.passes more) := by
  obtain ⟨next, more, rfl⟩ := List.exists_cons_of_ne_nil below
  rw [passes, find?, if_pos rfl]

lemma passes_entry_of_ne (ne : first ≠ name) :
    (entry name held inside rest).passes (first :: more) = rest.passes (first :: more) := by
  cases more with
  | nil => rfl
  | cons next more => rw [passes, passes, find?, if_neg ne]

/-! ### Walks -/

/-- A walk comes to what real directories lead to. -/
lemma mem_walk_iff {passable : Bool} (ordered : listing.Ordered) :
    sight ∈ listing.walk passable ↔ listing.Reaches sight.names sight.node ∧
      sight.passable = (passable && listing.passes sight.names) := by
  induction listing generalizing sight passable with
  | nil => exact iff_of_false List.not_mem_nil fun h => not_reaches_nil h.1
  | entry name held inside rest ihInside ihRest =>
    have fresh := ordered.name_notMem
    obtain ⟨-, within, behind⟩ := ordered
    have apart : ∀ {names node}, rest.Reaches names node →
        (entry name held inside rest).passes names = rest.passes names := by
      intro names node way
      obtain ⟨first, more, rfl, mem⟩ := way.exists_head
      apply passes_entry_of_ne
      rintro rfl
      exact fresh mem
    obtain ⟨names, node, own⟩ := sight
    rw [reaches_entry_iff fresh, walk, List.mem_append, List.mem_cons, ihRest behind]
    constructor
    · rintro ((same | mem) | ⟨way, passed⟩)
      · cases same
        exact ⟨.inl ⟨rfl, rfl⟩, (Bool.and_true _).symm⟩
      · split at mem
        case isFalse => cases mem
        case isTrue directory =>
          obtain ⟨⟨more, node, own⟩, found, same⟩ := List.mem_map.1 mem
          cases same
          obtain ⟨way, passed⟩ := (ihInside within).1 found
          refine ⟨.inr (.inl ⟨directory, more, rfl, way⟩), ?_⟩
          rw [passes_entry_self way.ne_nil, ← Bool.and_assoc]
          exact passed
      · refine ⟨.inr (.inr way), ?_⟩
        rw [apart way]
        exact passed
    · rintro ⟨⟨rfl, rfl⟩ | ⟨directory, more, rfl, way⟩ | way, passed⟩
      · rw [passes, Bool.and_true] at passed
        exact .inl (.inl (congrArg (Sight.mk [name] node) passed))
      · rw [passes_entry_self way.ne_nil, ← Bool.and_assoc] at passed
        refine .inl (.inr ?_)
        rw [if_pos directory]
        exact List.mem_map.2 ⟨⟨more, node, own⟩, (ihInside within).2 ⟨way, passed⟩, rfl⟩
      · rw [apart way] at passed
        exact .inr ⟨way, passed⟩

lemma names_within (name : Bytes) (sights : List Sight) :
    (sights.map (Sight.within name)).map Sight.names =
      (sights.map Sight.names).map (name :: ·) := by
  rw [List.map_map, List.map_map]
  rfl

/-- A walk goes in the order of the names on the way. -/
lemma pairwise_walk (ordered : listing.Ordered) (passable : Bool) :
    ((listing.walk passable).map Sight.names).Pairwise (· < ·) := by
  induction listing generalizing passable with
  | nil => exact .nil
  | entry name held inside rest ihInside ihRest =>
    obtain ⟨least, within, behind⟩ := ordered
    have later : ∀ more, ∀ names ∈ (rest.walk passable).map Sight.names, name :: more < names := by
      intro more names mem
      obtain ⟨sight, met, rfl⟩ := List.mem_map.1 mem
      obtain ⟨first, others, same, listed⟩ := ((mem_walk_iff behind).1 met).1.exists_head
      rw [same]
      exact List.cons_lt_cons_iff.2 (.inl (least first listed))
    generalize deeper_eq :
      (if held.isDirectory then inside.walk (passable && held.isEnterable) else []) = deeper
    have inner : (deeper.map Sight.names).Pairwise (· < ·) := by
      rw [← deeper_eq]
      split
      · exact ihInside within _
      · exact .nil
    have solid : ∀ names ∈ deeper.map Sight.names, names ≠ [] := by
      rw [← deeper_eq]
      intro names mem
      split at mem
      · obtain ⟨sight, met, rfl⟩ := List.mem_map.1 mem
        exact ((mem_walk_iff within).1 met).1.ne_nil
      · cases mem
    rw [walk, deeper_eq, List.cons_append, List.map_cons, List.map_append, names_within,
      List.pairwise_cons, List.pairwise_append]
    refine ⟨?_, ?_, ihRest behind _, ?_⟩
    · intro names mem
      rcases List.mem_append.1 mem with mem | mem
      · obtain ⟨more, met, rfl⟩ := List.mem_map.1 mem
        obtain ⟨first, others, rfl⟩ := List.exists_cons_of_ne_nil (solid more met)
        exact List.cons_lt_cons_iff.2 (.inr ⟨rfl, List.nil_lt_cons _ _⟩)
      · exact later [] names mem
    · refine inner.map _ fun a b before => ?_
      exact List.cons_lt_cons_iff.2 (.inr ⟨rfl, before⟩)
    · intro _ mem names behind
      obtain ⟨more, -, rfl⟩ := List.mem_map.1 mem
      exact later more names behind

lemma nodup_walk (ordered : listing.Ordered) (passable : Bool) :
    ((listing.walk passable).map Sight.names).Nodup := by
  refine (pairwise_walk ordered passable).imp ?_
  rintro names _ before rfl
  exact List.lt_irrefl names before

/-! ### Places in a tree -/

lemma Ordered.under (h : listing.Ordered) (location : Location) :
    (listing.under location).Ordered := by
  induction location generalizing listing with
  | nil => exact h
  | cons name more ih =>
    rw [Listing.under]
    cases found : listing.find? name with
    | none => trivial
    | some entry => exact ih (ordered_of_find? h found)

lemma Named.under (h : listing.Named) (location : Location) :
    (listing.under location).Named := by
  induction location generalizing listing with
  | nil => exact h
  | cons name more ih =>
    rw [Listing.under]
    cases found : listing.find? name with
    | none => trivial
    | some entry => exact ih (named_of_find? h found).2

lemma Reaches.isName (h : listing.Reaches names node) (named : listing.Named) :
    ∀ name ∈ names, Path.IsName name :=
  named.of_node? h.node?_eq

end Listing

end Rehome
