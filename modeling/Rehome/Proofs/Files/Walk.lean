import Rehome.Proofs.Files.Locate

/-!
# Where the paths of a walk lead

Every path that a walk finds names the file that it was found at, and leads there unless it cannot
be used at all. Main statements: `exists_leadsTo_of_mem_walk`, and that no file is found twice by
one walk (`nodup_walk`).
-/

namespace Rehome

namespace Walk

/-- The files that a walk finds. -/
def paths : Walk → List Path
  | files paths => paths
  | noDirectory | unlistable _ _ => []

end Walk

namespace Tree

/-- The path names the file at a location, and leads there unless it cannot be used, whatever
for. -/
structure LeadsTo (tree : Tree) (path : Path) (location : Location) : Prop where
  file : ∃ content access, tree.node? location = some (.file content access)
  located : tree.locate? path = some location
  resolved : (∀ writing, tree.resolve writing path = .ok ⟨location, false⟩) ∨
    ∃ error, ∀ writing, tree.resolve writing path = .error error

variable {tree a b : Tree} {root path : Path} {location base : Location} {names : List Bytes}
  {rights : Rights} {slashed : Bool} {content : Bytes} {access : Access} {paths : List Path}

/-! ### The paths that a walk finds -/

lemma typedFile?_eq_some {sight : Sight} (h : typedFile? root sight = some path) :
    path = root.below sight.names ∧ ∃ content access, sight.node = .file content access := by
  obtain ⟨names, node, passable⟩ := sight
  cases node with
  | directory rights => cases h
  | link target => cases h
  | device content access => cases h
  | file content access =>
    rw [typedFile?] at h
    dsimp only at h
    split at h
    case h_2 => cases h
    case h_1 =>
      split at h
      case isFalse => cases h
      case isTrue =>
        cases h
        exact ⟨rfl, content, access, rfl⟩

/-- A walk finds nothing, or it finds what lies in a directory. -/
lemma walk_cases (h : tree.walk root = .files paths) :
    paths = [] ∨ ∃ base slashed rights, tree.resolve false root = .ok ⟨base, slashed⟩ ∧
      tree.node? base = some (.directory rights) ∧
      paths = ((tree.listing.under base).walk rights.enterable).filterMap (typedFile? root) := by
  rw [walk] at h
  split at h
  case h_1 => cases h
  case h_2 target resolved =>
    split at h
    case h_2 => cases h
    case h_1 rights held =>
      split at h
      case isTrue =>
        cases h
        exact .inl rfl
      case isFalse =>
        dsimp only at h
        split at h
        case h_1 => cases h
        case h_2 =>
          cases h
          exact .inr ⟨target.location, target.slashed, rights, resolved, held, rfl⟩

/-- A path that a walk finds leads to where it was found. -/
lemma leadsTo_below (resolved : tree.resolve false root = .ok ⟨base, slashed⟩)
    (held : tree.node? base = some (.directory rights))
    (way : (tree.listing.under base).Reaches names (.file content access)) :
    tree.LeadsTo (root.below names) (base ++ names) := by
  have leads := resolve_below resolved held way nofun
  refine ⟨⟨content, access, ?_⟩, locate?_below resolved held way nofun, ?_⟩
  · rw [node?_below tree base way.ne_nil, way.node?_eq]
  · split at leads
    case isTrue => exact .inr ⟨_, leads⟩
    case isFalse =>
      split at leads
      case isTrue => exact .inl leads
      case isFalse => exact .inr ⟨_, leads⟩

/-- What a path that a walk finds leads to. -/
lemma leadsTo_of_typedFile? {sight : Sight}
    (resolved : tree.resolve false root = .ok ⟨base, slashed⟩)
    (held : tree.node? base = some (.directory rights))
    (mem : sight ∈ (tree.listing.under base).walk rights.enterable)
    (typed : typedFile? root sight = some path) : tree.LeadsTo path (base ++ sight.names) := by
  obtain ⟨rfl, content, access, file⟩ := typedFile?_eq_some typed
  obtain ⟨way, -⟩ := (Listing.mem_walk_iff (tree.ordered.under base)).1 mem
  rw [file] at way
  exact leadsTo_below resolved held way

/-- Every path that a walk finds leads to a file. -/
theorem exists_leadsTo_of_mem_walk (h : tree.walk root = .files paths) (mem : path ∈ paths) :
    ∃ location, tree.LeadsTo path location := by
  rcases walk_cases h with rfl | ⟨base, slashed, rights, resolved, held, rfl⟩
  · cases mem
  · obtain ⟨sight, mem, typed⟩ := List.mem_filterMap.1 mem
    exact ⟨_, leadsTo_of_typedFile? resolved held mem typed⟩

/-- A walk finds no file twice. -/
theorem nodup_walk (h : tree.walk root = .files paths) : (paths.filterMap tree.locate?).Nodup := by
  rcases walk_cases h with rfl | ⟨base, slashed, rights, resolved, held, rfl⟩
  · exact .nil
  · have nodup := (Listing.nodup_walk (tree.ordered.under base) rights.enterable).map
      (List.append_right_injective base)
    rw [List.map_map] at nodup
    refine List.Nodup.sublist ?_ nodup
    rw [List.filterMap_filterMap]
    apply filterMap_sublist_map
    intro sight mem location h
    obtain ⟨path, typed, located⟩ := Option.bind_eq_some_iff.1 h
    have leads := leadsTo_of_typedFile? resolved held mem typed
    exact Option.some.inj (located.symm.trans leads.located)

/-! ### Other trees of the same outline -/

lemma Alike.file (h : Alike a b)
    (file : ∃ content access, a.node? location = some (.file content access)) :
    ∃ content access, b.node? location = some (.file content access) := by
  obtain ⟨content, access, held⟩ := file
  have same := (alike_iff.1 h).2 location
  rw [held] at same
  cases there : b.node? location with
  | none =>
    rw [there] at same
    cases same
  | some node =>
    rw [there] at same
    cases node with
    | directory rights => cases same
    | link target => cases same
    | device content access => cases same
    | file content access => exact ⟨content, access, rfl⟩

lemma LeadsTo.alike (h : a.LeadsTo path location) (alike : Alike a b) :
    b.LeadsTo path location where
  file := alike.file h.file
  located := (alike.locate?_eq path).symm.trans h.located
  resolved := by
    simp only [← alike.resolve_eq]
    exact h.resolved

end Tree

end Rehome
