import Mathlib.Data.List.Nodup
import Mathlib.Tactic.Lemma
import Rehome.Files.Changes

/-!
# What a tree holds

A tree is known by its working directory and what its locations hold. Main statements: the entries
of a tree are its locations, each listed once (`mem_entries_iff`, `nodup_entries`), and trees whose
locations hold the same are equal (`Tree.ext_node?`).
-/

namespace Rehome

/-- What is kept of a list and mapped is a part of the list mapped. -/
lemma filterMap_sublist_map {α β : Type} {f : α → β} {g : α → Option β} {list : List α}
    (h : ∀ a ∈ list, ∀ b, g a = some b → b = f a) : (list.filterMap g).Sublist (list.map f) := by
  induction list with
  | nil => exact .slnil
  | cons a list ih =>
    rw [List.forall_mem_cons] at h
    rw [List.filterMap_cons, List.map_cons]
    split
    case h_1 => exact (ih h.2).cons (f a)
    case h_2 b kept =>
      rw [h.1 b kept]
      exact (ih h.2).cons_cons (f a)

namespace Listing

variable {name : Bytes} {node : Node} {inside rest listing : Listing}

/-! ### Names and look-ups -/

lemma find?_eq_none_iff : listing.find? name = none ↔ name ∉ listing.names := by
  induction listing with
  | nil => exact iff_of_true rfl List.not_mem_nil
  | entry other old inside rest _ ih =>
    rw [find?, names, List.mem_cons]
    by_cases same : name = other
    · simp [same]
    · simp [same, ih]

lemma Ordered.name_notMem (h : (entry name node inside rest).Ordered) : name ∉ rest.names :=
  fun mem => List.lt_irrefl _ (h.1 name mem)

@[simp] lemma node?_nil (location : Location) : nil.node? location = none := by
  cases location with
  | nil => rfl
  | cons => rfl

lemma node?_entry_self (name : Bytes) (node : Node) (inside rest : Listing) (more : Location) :
    (entry name node inside rest).node? (name :: more) =
      if more = [] then some node else inside.node? more := by
  rw [node?, find?, if_pos rfl]

lemma node?_entry_of_ne {first : Bytes} (ne : first ≠ name) (node : Node) (inside rest : Listing)
    (more : Location) :
    (entry name node inside rest).node? (first :: more) = rest.node? (first :: more) := by
  rw [node?, find?, if_neg ne, node?]

lemma node?_eq_none_of_notMem {more : Location} (h : name ∉ listing.names) :
    listing.node? (name :: more) = none := by
  rw [node?, find?_eq_none_iff.2 h]

lemma mem_names_iff : name ∈ listing.names ↔ ∃ node, listing.node? [name] = some node := by
  constructor
  · intro mem
    cases found : listing.find? name with
    | none => exact absurd mem (find?_eq_none_iff.1 found)
    | some entry =>
      refine ⟨entry.1, ?_⟩
      rw [node?, found]
      rfl
  · rintro ⟨node, held⟩
    by_contra absent
    rw [node?_eq_none_of_notMem absent] at held
    cases held

lemma mem_names_congr {a b : Listing} (h : ∀ location, a.node? location = b.node? location) :
    name ∈ a.names ↔ name ∈ b.names := by
  rw [mem_names_iff, mem_names_iff, h]

/-- What a location holds, seen from a place on the way there. -/
lemma node?_append (base : Location) {more : Location} (ne : more ≠ []) :
    listing.node? (base ++ more) = (listing.under base).node? more := by
  induction base generalizing listing with
  | nil => rfl
  | cons name base ih =>
    rw [List.cons_append, node?, under]
    cases listing.find? name with
    | none => exact (node?_nil more).symm
    | some entry => exact (if_neg (by simp [ne])).trans ih

/-! ### Entries -/

lemma mem_entries_iff {location : Location} (ordered : listing.Ordered) :
    (location, node) ∈ listing.entries ↔ listing.node? location = some node := by
  induction listing generalizing location node with
  | nil => simp [entries]
  | entry name held inside rest ihInside ihRest =>
    have fresh := ordered.name_notMem
    obtain ⟨-, within, behind⟩ := ordered
    simp only [entries, List.mem_append, List.mem_cons, Prod.mk.injEq, List.mem_map, Prod.exists,
      ihInside within, ihRest behind]
    cases location with
    | nil => simp [node?]
    | cons first more =>
      by_cases same : first = name
      · subst same
        rw [node?_entry_self, node?_eq_none_of_notMem fresh]
        by_cases top : more = []
        · subst top
          simp [node?, eq_comm]
        · simp [top]
      · rw [node?_entry_of_ne same]
        simp [same, Ne.symm same]

lemma fst_within (name : Bytes) (entries : List (Location × Node)) :
    (entries.map fun (location, node) => (name :: location, node)).map Prod.fst =
      (entries.map Prod.fst).map (name :: ·) := by
  rw [List.map_map, List.map_map]
  rfl

/-- Every location is listed once. -/
lemma nodup_entries (ordered : listing.Ordered) : (listing.entries.map Prod.fst).Nodup := by
  induction listing with
  | nil => exact .nil
  | entry name held inside rest ihInside ihRest =>
    have fresh := ordered.name_notMem
    obtain ⟨-, within, behind⟩ := ordered
    have later : ∀ more, name :: more ∉ rest.entries.map Prod.fst := by
      intro more mem
      obtain ⟨⟨location, node⟩, mem, rfl⟩ := List.mem_map.1 mem
      rw [mem_entries_iff behind, node?_eq_none_of_notMem fresh] at mem
      cases mem
    rw [entries, List.cons_append, List.map_cons, List.map_append, fst_within, List.nodup_cons,
      List.mem_append, not_or, List.nodup_append]
    refine ⟨⟨?_, later []⟩, (ihInside within).map List.cons_injective, ihRest behind, ?_⟩
    · intro mem
      obtain ⟨location, mem, eq⟩ := List.mem_map.1 mem
      cases List.cons_injective eq
      obtain ⟨⟨_, node⟩, mem, rfl⟩ := List.mem_map.1 mem
      cases (mem_entries_iff within).1 mem
    · rintro _ mem location other rfl
      obtain ⟨more, -, rfl⟩ := List.mem_map.1 mem
      exact later more other

/-! ### Extensionality -/

/-- Listings are equal if all locations hold the same. -/
lemma ext_node? {a b : Listing} (orderedA : a.Ordered) (orderedB : b.Ordered)
    (h : ∀ location, a.node? location = b.node? location) : a = b := by
  induction a generalizing b with
  | nil =>
    cases b with
    | nil => rfl
    | entry name => exact absurd ((mem_names_congr h).2 List.mem_cons_self) List.not_mem_nil
  | entry name node inside rest ihInside ihRest =>
    cases b with
    | nil => exact absurd ((mem_names_congr h).1 List.mem_cons_self) List.not_mem_nil
    | entry other node' inside' rest' =>
      -- both begin with the least of their names
      have same : name = other := by
        rcases List.mem_cons.1 ((mem_names_congr h).1 List.mem_cons_self) with same | behindB
        · exact same
        rcases List.mem_cons.1 ((mem_names_congr h).2 List.mem_cons_self) with same | behindA
        · exact same.symm
        · exact absurd (orderedA.1 other behindA) (List.lt_asymm (orderedB.1 name behindB))
      subst same
      have head := h [name]
      rw [node?_entry_self, node?_entry_self, if_pos rfl, if_pos rfl] at head
      cases head
      have within : ∀ location, inside.node? location = inside'.node? location := by
        intro location
        cases location with
        | nil => rfl
        | cons first more =>
          have held := h (name :: first :: more)
          rwa [node?_entry_self, node?_entry_self, if_neg (List.cons_ne_nil _ _),
            if_neg (List.cons_ne_nil _ _)] at held
      have behind : ∀ location, rest.node? location = rest'.node? location := by
        intro location
        cases location with
        | nil => rfl
        | cons first more =>
          by_cases same : first = name
          · subst same
            rw [node?_eq_none_of_notMem orderedA.name_notMem,
              node?_eq_none_of_notMem orderedB.name_notMem]
          · have held := h (first :: more)
            rwa [node?_entry_of_ne same, node?_entry_of_ne same] at held
      rw [ihInside orderedA.2.1 orderedB.2.1 within, ihRest orderedA.2.2 orderedB.2.2 behind]

/-! ### Places that are there -/

lemma Named.of_node? (named : listing.Named) {location : Location}
    (held : listing.node? location = some node) : ∀ name ∈ location, Path.IsName name := by
  induction location generalizing listing with
  | nil => cases held
  | cons first more ih =>
    rw [node?] at held
    cases found : listing.find? first with
    | none =>
      rw [found] at held
      cases held
    | some entry =>
      obtain ⟨proper, below⟩ := named_of_find? named found
      rw [found] at held
      rw [List.forall_mem_cons]
      refine ⟨proper, ?_⟩
      by_cases top : more = []
      · rw [top]
        exact List.forall_mem_nil _
      · exact ih below ((if_neg top).symm.trans held)

/-- What holds something lies in a place that does. -/
lemma node?_dropLast_ne_none {location : Location} (held : listing.node? location ≠ none) :
    location.dropLast = [] ∨ listing.node? location.dropLast ≠ none := by
  induction location generalizing listing with
  | nil => exact .inl rfl
  | cons first more ih =>
    cases more with
    | nil => exact .inl rfl
    | cons second more =>
      right
      rw [node?] at held
      rw [List.dropLast_cons_cons, node?]
      cases found : listing.find? first with
      | none =>
        rw [found] at held
        exact absurd rfl held
      | some entry =>
        rw [found] at held
        dsimp only at held ⊢
        rw [if_neg (List.cons_ne_nil _ _)] at held
        rcases ih held with top | held
        · rw [if_pos top]
          exact Option.some_ne_none _
        · split
          · exact Option.some_ne_none _
          · exact held

end Listing

namespace Tree

variable {tree before after : Tree} {location : Location}

@[simp] lemma node?_root (tree : Tree) : tree.node? [] = some (.directory tree.rights) :=
  rfl

lemma node?_of_ne_nil (tree : Tree) (ne : location ≠ []) :
    tree.node? location = tree.listing.node? location :=
  if_neg ne

/-- Trees are equal if all locations hold the same. -/
lemma ext_node? (place : before.workingDirectory = after.workingDirectory)
    (h : ∀ location, before.node? location = after.node? location) : before = after := by
  have root := h []
  rw [node?_root, node?_root, Option.some.injEq, Node.directory.injEq] at root
  have same : before.listing = after.listing := by
    apply Listing.ext_node? before.ordered after.ordered
    intro location
    cases location with
    | nil => rfl
    | cons name more =>
      have held := h (name :: more)
      rwa [node?_of_ne_nil _ (List.cons_ne_nil _ _), node?_of_ne_nil _ (List.cons_ne_nil _ _)]
        at held
  cases before
  cases after
  cases place
  cases root
  cases same
  rfl

/-- What the locations hold when one that is there gets another node. -/
lemma node?_insert (ne : location ≠ []) (held : tree.node? location ≠ none) (node : Node)
    (other : Location) :
    (tree.insert location node).node? other =
      if other = location then some node else tree.node? other := by
  by_cases same : other = location
  · subst same
    rw [if_pos rfl]
    rw [node?_of_ne_nil tree ne] at held
    obtain ⟨old, eq⟩ := Option.ne_none_iff_exists'.1 held
    apply node?_insert_self tree node ne (tree.named.of_node? eq)
    rw [node?]
    split
    case isTrue => exact Option.some_ne_none _
    case isFalse top => exact (Listing.node?_dropLast_ne_none held).resolve_left top
  · rw [if_neg same]
    exact node?_insert_of_ne tree node same

/-! ### Changed files -/

lemma content?_eq_some_iff {bytes : Bytes} :
    tree.content? location = some bytes ↔
      ∃ access, tree.node? location = some (.file bytes access) := by
  rw [content?]
  split
  case h_1 content access held => simp [held]
  case h_2 other => simpa using fun access held => other bytes access held

lemma mem_entries_iff {node : Node} :
    (location, node) ∈ tree.entries ↔ location ≠ [] ∧ tree.node? location = some node := by
  rw [entries, Listing.mem_entries_iff tree.ordered, node?]
  cases location with
  | nil => simp [Listing.node?]
  | cons name more => simp

lemma mem_changes_iff {bytes : Bytes} : (location, bytes) ∈ before.changes after ↔
    after.content? location = some bytes ∧ before.content? location ≠ some bytes := by
  rw [changes, List.mem_filterMap]
  constructor
  · rintro ⟨⟨place, node⟩, mem, told⟩
    obtain ⟨-, held⟩ := mem_entries_iff.1 mem
    cases node with
    | directory rights => cases told
    | link target => cases told
    | device content access => cases told
    | file content access =>
      dsimp only at told
      split at told
      case isTrue => cases told
      case isFalse differs =>
        cases told
        exact ⟨content?_eq_some_iff.2 ⟨access, held⟩, differs⟩
  · rintro ⟨holds, differs⟩
    obtain ⟨access, held⟩ := content?_eq_some_iff.1 holds
    have below : location ≠ [] := by
      rintro rfl
      cases held
    exact ⟨(location, .file bytes access), mem_entries_iff.2 ⟨below, held⟩, if_neg differs⟩

lemma nodup_changes : ((before.changes after).map Prod.fst).Nodup := by
  have nodup : (after.entries.map Prod.fst).Nodup := Listing.nodup_entries after.ordered
  refine List.Nodup.sublist ?_ nodup
  rw [changes, List.map_filterMap]
  apply filterMap_sublist_map
  rintro ⟨place, node⟩ - location told
  obtain ⟨change, told, rfl⟩ := Option.map_eq_some_iff.1 told
  cases node with
  | directory rights => cases told
  | link target => cases told
  | device content access => cases told
  | file content access =>
    dsimp only at told
    split at told
    case isTrue => cases told
    case isFalse =>
      cases told
      rfl

end Tree

end Rehome
