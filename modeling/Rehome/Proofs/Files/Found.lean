import Rehome.Files.Growth
import Rehome.Proofs.Files.Walk

/-!
# What a walk finds

Real directories lead from a root to what lies below it, and a link leads nowhere. Main statement: a
walk finds each typed source file that they lead to, once and in the order of the names on the way,
or fails at the first directory that cannot be listed, exactly unless the root spells the standard
input (`Tree.walk_finds`).
-/

namespace Rehome

/-- What a walk comes to in the end: files, or the directory that spoils it, and why. -/
def Walk.outcome : Walk → Except (Path × AccessError) (List Path)
  | noDirectory => .ok []
  | unlistable directory error => .error (directory, error)
  | files paths => .ok paths

namespace Path

/-- A name of a typed source file: something, and one of the two extensions behind it. -/
def TypedName (name : Bytes) : Prop :=
  ∃ stem ≠ [],
    name = stem ++ Utf8.encode ".ts".toList ∨ name = stem ++ Utf8.encode ".tsx".toList

variable {name extension : Bytes} {names others : List Bytes}

/-- The extension of a name stands behind its last dot, which is not at the front. -/
lemma extension?_eq_some_iff : extension? name = some extension ↔
    dot ∉ extension ∧ ∃ stem ≠ [], name = stem ++ dot :: extension := by
  have parted : ∀ {stem last : Bytes}, dot ∉ last →
      (splitOn dot (stem ++ dot :: last)).reverse = last :: (splitOn dot stem).reverse := by
    intro stem last free
    rw [splitOn_append, splitOn_of_notMem free, List.reverse_append]
    rfl
  have told : ∀ {stem last : Bytes}, stem ≠ [] → dot ∉ last →
      extension? (stem ++ dot :: last) = some last := by
    intro stem last solid free
    rw [extension?, parted free]
    split
    case h_1 none => cases none
    case h_2 one =>
      exact absurd (List.reverse_eq_nil_iff.1 (List.cons.inj one).2) (splitOn_ne_nil dot stem)
    case h_3 front =>
      exfalso
      have only : splitOn dot stem = [[]] := List.reverse_inj.1 (List.cons.inj front).2
      cases stem with
      | nil => exact solid rfl
      | cons b rest =>
        rw [splitOn] at only
        split at only
        · exact splitOn_ne_nil dot rest (List.cons.inj only).2
        · split at only
          · cases only
          · cases only
    case h_4 parts => rw [(List.cons.inj parts).1]
  constructor
  · intro found
    by_cases dotted : dot ∈ name
    · obtain ⟨last, stem, eq, free⟩ := List.eq_append_cons_of_mem (List.mem_reverse.2 dotted)
      have whole : name = stem.reverse ++ dot :: last.reverse := by
        rw [← List.reverse_reverse name, eq]
        simp
      have clean : dot ∉ last.reverse := mt List.mem_reverse.1 free
      by_cases solid : stem.reverse = []
      · rw [whole, extension?, parted clean, solid] at found
        cases found
      · rw [whole, told solid clean] at found
        cases found
        exact ⟨clean, _, solid, whole⟩
    · rw [extension?, splitOn_of_notMem dotted] at found
      cases found
  · rintro ⟨free, stem, solid, rfl⟩
    exact told solid free

lemma isTyped_iff (proper : IsName name) : isTyped name = true ↔ TypedName name := by
  have own : fileName? name = some name := by
    rw [fileName?, steps_name proper]
    rfl
  have two : ∀ extension, extension ∈ typedExtensions ↔
      dot :: extension = Utf8.encode ".ts".toList ∨
        dot :: extension = Utf8.encode ".tsx".toList := by
    intro extension
    simp [typedExtensions, Utf8.encode, Utf8.bytesOf, dot]
  rw [isTyped, own, Option.bind_some]
  constructor
  · intro typed
    split at typed
    case h_2 => cases typed
    case h_1 extension found =>
      obtain ⟨-, stem, solid, rfl⟩ := extension?_eq_some_iff.1 found
      refine ⟨stem, solid, ?_⟩
      rw [List.append_cancel_left_eq, List.append_cancel_left_eq]
      exact (two extension).1 (of_decide_eq_true typed)
  · rintro ⟨stem, solid, rfl | rfl⟩
    · have found : extension? (stem ++ Utf8.encode ".ts".toList) = some [0x74, 0x73] :=
        extension?_eq_some_iff.2 ⟨by decide, stem, solid, rfl⟩
      rw [found]
      rfl
    · have found : extension? (stem ++ Utf8.encode ".tsx".toList) = some [0x74, 0x73, 0x78] :=
        extension?_eq_some_iff.2 ⟨by decide, stem, solid, rfl⟩
      rw [found]
      rfl

/-- Different names lead to different paths. -/
lemma below_injective (root : Path) (proper : ∀ name ∈ names, IsName name)
    (proper' : ∀ name ∈ others, IsName name) (same : root.below names = root.below others) :
    names = others := by
  have steps := congrArg steps same
  rw [steps_below root proper, steps_below root proper', List.append_cancel_left_eq] at steps
  exact List.map_injective_iff.2 (fun _ _ eq => Step.name.inj eq) steps

end Path

namespace Tree

variable {tree : Tree} {root : Path} {base : Location} {names : List Bytes} {rights own : Rights}
  {node : Node} {passable slashed : Bool} {error : AccessError}

/-- The root is a directory, the one at a location. -/
def Opens (tree : Tree) (root : Path) (base : Location) : Prop :=
  ∃ slashed rights, tree.resolve false root = .ok ⟨base, slashed⟩ ∧
    tree.node? base = some (.directory rights)

/-- A directory of a walk: the one at the location, or one that real directories lead to from
there. -/
def HasDirectory (tree : Tree) (base : Location) (names : List Bytes) : Prop :=
  names = [] ∨ ∃ rights, (tree.listing.under base).Reaches names (.directory rights)

/-- A directory of the walk cannot be listed. -/
def Bars (tree : Tree) (root : Path) (base : Location) (names : List Bytes) (error : AccessError) :
    Prop :=
  tree.HasDirectory base names ∧ tree.list (root.below names) = .error error

/-- Real directories lead to a typed source file. -/
def HasTyped (tree : Tree) (base : Location) (names : List Bytes) : Prop :=
  (∃ content access, (tree.listing.under base).Reaches names (.file content access)) ∧
    ∃ name ∈ names.getLast?, Path.TypedName name

/-- The walk finds each typed source file that real directories lead to, once and in the order of
the names on the way, and nothing else. -/
structure FindsAll (tree : Tree) (root : Path) (base : Location) (places : List (List Bytes)) :
    Prop where
  found : (tree.walk root).outcome = .ok (places.map root.below)
  once : (places.map root.below).Nodup
  sorted : places.Pairwise (· < ·)
  exactly : ∀ names, names ∈ places ↔ tree.HasTyped base names

/-- The walk fails at the first directory that cannot be listed. -/
def FailsFirst (tree : Tree) (root : Path) (base : Location) : Prop :=
  ∃ names error, (tree.walk root).outcome = .error (root.below names, error) ∧
    tree.Bars root base names error ∧
      ∀ other error, tree.Bars root base other error → ¬ other < names

/-! ### The list that a walk goes through -/

lemma mem_sights_iff : ⟨names, node, passable⟩ ∈ tree.sights base rights ↔
    names = [] ∧ node = .directory rights ∧ passable = true ∨
      (tree.listing.under base).Reaches names node ∧
        passable = (rights.enterable && (tree.listing.under base).passes names) := by
  rw [sights, List.mem_cons, Listing.mem_walk_iff (tree.ordered.under base), Sight.mk.injEq]

/-- A walk lists the root first. -/
lemma pairwise_sights (tree : Tree) (base : Location) (rights : Rights) :
    ((tree.sights base rights).map Sight.names).Pairwise (· < ·) := by
  have ordered := tree.ordered.under base
  rw [sights, List.map_cons, List.pairwise_cons]
  refine ⟨?_, Listing.pairwise_walk ordered _⟩
  intro names mem
  obtain ⟨sight, met, rfl⟩ := List.mem_map.1 mem
  obtain ⟨way, -⟩ := (Listing.mem_walk_iff ordered).1 met
  obtain ⟨first, more, same, -⟩ := way.exists_head
  rw [same]
  exact List.nil_lt_cons _ _

/-! ### The directories in the way -/

/-- Whether a directory that a walk comes to can be listed by its path. -/
lemma list_below (resolved : tree.resolve false root = .ok ⟨base, slashed⟩)
    (held : tree.node? base = some (.directory rights))
    (mem : ⟨names, .directory own, passable⟩ ∈ tree.sights base rights) :
    tree.list (root.below names) =
      if maxPath < (root.below names).length then .error .nameTooLong
      else if passable && own.listable then .ok (tree.listing.under (base ++ names))
      else .error .denied := by
  rcases mem_sights_iff.1 mem with ⟨rfl, same, rfl⟩ | ⟨way, rfl⟩
  · cases same
    obtain ⟨-, short, -, -⟩ := resolve_eq_ok resolved
    rw [Path.below, if_pos rfl, list, resolved, if_neg (Nat.not_lt.2 short), List.append_nil]
    dsimp only [bind, Except.bind]
    rw [held]
    rfl
  · rw [list, resolve_below resolved held way (by rintro _ ⟨⟩)]
    have there : tree.node? (base ++ names) = some (.directory own) := by
      rw [node?_below tree base way.ne_nil, way.node?_eq]
    split
    case isTrue => rfl
    case isFalse =>
      cases rights.enterable && (tree.listing.under base).passes names with
      | false => rfl
      | true =>
        dsimp only [bind, Except.bind]
        rw [if_pos rfl]
        dsimp only
        rw [there]
        rfl

/-- What keeps a walk from listing a directory is what keeps from listing it by its path. -/
lemma obstacle?_eq (resolved : tree.resolve false root = .ok ⟨base, slashed⟩)
    (held : tree.node? base = some (.directory rights))
    (mem : ⟨names, .directory own, passable⟩ ∈ tree.sights base rights) :
    obstacle? root ⟨names, .directory own, passable⟩ =
      match tree.list (root.below names) with
      | .ok _ => none
      | .error error => some (root.below names, error) := by
  rw [list_below resolved held mem, obstacle?]
  dsimp only
  split
  case isTrue => rfl
  case isFalse =>
    cases passable && own.listable with
    | false => rfl
    | true => rfl

lemma exists_directory_of_obstacle? {sight : Sight} (h : obstacle? root sight ≠ none) :
    ∃ own, sight = ⟨sight.names, .directory own, sight.passable⟩ := by
  obtain ⟨names, node, passable⟩ := sight
  cases node with
  | file content access => exact absurd rfl h
  | link target => exact absurd rfl h
  | device content access => exact absurd rfl h
  | directory own => exact ⟨own, rfl⟩

/-- The directories in the way of a walk are those that cannot be listed. -/
lemma bars_iff (resolved : tree.resolve false root = .ok ⟨base, slashed⟩)
    (held : tree.node? base = some (.directory rights)) :
    tree.Bars root base names error ↔ ∃ sight ∈ tree.sights base rights,
      sight.names = names ∧ obstacle? root sight = some (root.below names, error) := by
  constructor
  · rintro ⟨directory, shut⟩
    have listed : ∃ own passable, ⟨names, .directory own, passable⟩ ∈ tree.sights base rights := by
      rcases directory with rfl | ⟨own, way⟩
      · exact ⟨rights, true, mem_sights_iff.2 (.inl ⟨rfl, rfl, rfl⟩)⟩
      · exact ⟨own, _, mem_sights_iff.2 (.inr ⟨way, rfl⟩)⟩
    obtain ⟨own, passable, mem⟩ := listed
    refine ⟨_, mem, rfl, ?_⟩
    rw [obstacle?_eq resolved held mem, shut]
  · rintro ⟨sight, mem, rfl, bad⟩
    obtain ⟨own, same⟩ := exists_directory_of_obstacle? (by rw [bad]; exact Option.some_ne_none _)
    rw [same] at mem bad
    rw [obstacle?_eq resolved held mem] at bad
    refine ⟨?_, ?_⟩
    · rcases mem_sights_iff.1 mem with ⟨top, -, -⟩ | ⟨way, -⟩
      · exact .inl top
      · exact .inr ⟨own, way⟩
    · split at bad
      case h_1 => cases bad
      case h_2 other shut =>
        cases bad
        exact shut

lemma exists_obstacle?_eq_some (resolved : tree.resolve false root = .ok ⟨base, slashed⟩)
    (held : tree.node? base = some (.directory rights)) {sight : Sight}
    (mem : sight ∈ tree.sights base rights) (bad : obstacle? root sight ≠ none) :
    ∃ error, obstacle? root sight = some (root.below sight.names, error) := by
  obtain ⟨own, same⟩ := exists_directory_of_obstacle? bad
  rw [same] at mem bad ⊢
  rw [obstacle?_eq resolved held mem] at bad ⊢
  cases listed : tree.list (root.below sight.names) with
  | ok listing =>
    rw [listed] at bad
    exact absurd rfl bad
  | error error => exact ⟨error, rfl⟩

/-! ### The files that are kept -/

lemma typedFile?_isSome_iff {sight : Sight} (proper : ∀ name ∈ sight.names, Path.IsName name) :
    (typedFile? root sight).isSome = true ↔
      (∃ content access, sight.node = .file content access) ∧
        ∃ name ∈ sight.names.getLast?, Path.TypedName name := by
  obtain ⟨names, node, passable⟩ := sight
  cases node with
  | directory rights => exact iff_of_false nofun nofun
  | link target => exact iff_of_false nofun nofun
  | device content access => exact iff_of_false nofun nofun
  | file content access =>
    rw [typedFile?]
    dsimp only at proper ⊢
    cases last : names.getLast? with
    | none => simp
    | some name =>
      have typed := Path.isTyped_iff (proper name (List.mem_of_getLast? last))
      by_cases own : Path.isTyped name = true
      · simp [own, typed.1 own]
      · simp [own, mt typed.2 own]

/-- The paths that a walk finds are those of the places that it keeps. -/
lemma filterMap_typedFile? (root : Path) (sights : List Sight) :
    sights.filterMap (typedFile? root) =
      ((sights.filter fun sight => (typedFile? root sight).isSome).map Sight.names).map
        root.below := by
  induction sights with
  | nil => rfl
  | cons sight sights ih =>
    cases typed : typedFile? root sight with
    | none => rw [List.filterMap_cons_none typed, List.filter_cons_of_neg (by simp [typed]), ih]
    | some path =>
      rw [List.filterMap_cons_some typed, List.filter_cons_of_pos (by simp [typed]), List.map_cons,
        List.map_cons, ih, (typedFile?_eq_some typed).1]

/-- The places of the typed source files that a walk comes to. -/
def typedPlaces (tree : Tree) (root : Path) (base : Location) (rights : Rights) :
    List (List Bytes) :=
  ((tree.sights base rights).filter fun sight => (typedFile? root sight).isSome).map Sight.names

lemma mem_typedPlaces_iff :
    names ∈ tree.typedPlaces root base rights ↔ tree.HasTyped base names := by
  rw [typedPlaces, List.mem_map]
  constructor
  · rintro ⟨⟨names, node, passable⟩, kept, rfl⟩
    obtain ⟨mem, typed⟩ := List.mem_filter.1 kept
    rcases mem_sights_iff.1 mem with ⟨-, rfl, -⟩ | ⟨way, -⟩
    · cases typed
    · have proper := way.isName (tree.named.under base)
      obtain ⟨⟨content, access, rfl⟩, last⟩ := (typedFile?_isSome_iff proper).1 typed
      exact ⟨⟨content, access, way⟩, last⟩
  · rintro ⟨⟨content, access, way⟩, last⟩
    have proper := way.isName (tree.named.under base)
    refine ⟨⟨names, .file content access, _⟩, List.mem_filter.2
      ⟨mem_sights_iff.2 (.inr ⟨way, rfl⟩), ?_⟩, rfl⟩
    exact (typedFile?_isSome_iff proper).2 ⟨⟨content, access, rfl⟩, last⟩

lemma pairwise_typedPlaces : (tree.typedPlaces root base rights).Pairwise (· < ·) := by
  have kept := @List.filter_sublist _ (fun sight => (typedFile? root sight).isSome)
    (tree.sights base rights)
  exact (tree.pairwise_sights base rights).sublist (kept.map Sight.names)

/-- Different places have different paths. -/
lemma nodup_typedPlaces : ((tree.typedPlaces root base rights).map root.below).Nodup := by
  have nodup : (tree.typedPlaces root base rights).Nodup := by
    refine pairwise_typedPlaces.imp ?_
    rintro names _ before rfl
    exact List.lt_irrefl names before
  refine List.Nodup.map_on ?_ nodup
  intro names mem others mem'
  obtain ⟨⟨_, _, way⟩, -⟩ := mem_typedPlaces_iff.1 mem
  obtain ⟨⟨_, _, way'⟩, -⟩ := mem_typedPlaces_iff.1 mem'
  exact Path.below_injective root (way.isName (tree.named.under base))
    (way'.isName (tree.named.under base))

/-! ### What a walk comes to in the end -/

lemma walk_of_not_opens (closed : ∀ base, ¬ tree.Opens root base) :
    tree.walk root = .noDirectory := by
  rw [walk]
  split
  case h_1 => rfl
  case h_2 target resolved =>
    split
    case h_1 rights held => exact absurd ⟨target.slashed, rights, resolved, held⟩ (closed _)
    case h_2 => rfl

lemma walk_of_isStandardInput (resolved : tree.resolve false root = .ok ⟨base, slashed⟩)
    (held : tree.node? base = some (.directory rights)) (input : root.isStandardInput = true) :
    tree.walk root = .files [] := by
  simp only [walk, resolved, held, input, if_true]

lemma walk_of_clear (resolved : tree.resolve false root = .ok ⟨base, slashed⟩)
    (held : tree.node? base = some (.directory rights)) (plain : root.isStandardInput = false)
    (clear : (tree.sights base rights).findSome? (obstacle? root) = none) :
    tree.walk root = .files ((tree.sights base rights).filterMap (typedFile? root)) := by
  simp only [walk, resolved, held, plain, clear, Bool.false_eq_true, if_false]

lemma walk_of_obstacle {directory : Path}
    (resolved : tree.resolve false root = .ok ⟨base, slashed⟩)
    (held : tree.node? base = some (.directory rights)) (plain : root.isStandardInput = false)
    (found : (tree.sights base rights).findSome? (obstacle? root) = some (directory, error)) :
    tree.walk root = .unlistable directory error := by
  simp only [walk, resolved, held, plain, found, Bool.false_eq_true, if_false]

lemma exists_findsAll (opens : tree.Opens root base) (plain : root.isStandardInput = false)
    (clear : ∀ names error, ¬ tree.Bars root base names error) :
    ∃ places, tree.FindsAll root base places := by
  obtain ⟨slashed, rights, resolved, held⟩ := opens
  have free : (tree.sights base rights).findSome? (obstacle? root) = none := by
    rw [List.findSome?_eq_none_iff]
    intro sight mem
    by_contra bad
    obtain ⟨error, shut⟩ := exists_obstacle?_eq_some resolved held mem bad
    exact clear _ error ((bars_iff resolved held).2 ⟨sight, mem, rfl, shut⟩)
  refine ⟨tree.typedPlaces root base rights, ?_, nodup_typedPlaces, pairwise_typedPlaces,
    fun names => mem_typedPlaces_iff⟩
  rw [walk_of_clear resolved held plain free, filterMap_typedFile?]
  rfl

lemma failsFirst_of_bars (opens : tree.Opens root base) (plain : root.isStandardInput = false)
    (bars : tree.Bars root base names error) : tree.FailsFirst root base := by
  obtain ⟨slashed, rights, resolved, held⟩ := opens
  obtain ⟨sight, mem, -, bad⟩ := (bars_iff resolved held).1 bars
  cases found : (tree.sights base rights).findSome? (obstacle? root) with
  | none =>
    have free := List.findSome?_eq_none_iff.1 found _ mem
    rw [bad] at free
    cases free
  | some obstacle =>
    obtain ⟨before, first, after, whole, shut, free⟩ := List.findSome?_eq_some_iff.1 found
    have here : first ∈ tree.sights base rights := by
      rw [whole]
      exact List.mem_append_right _ List.mem_cons_self
    obtain ⟨error, told⟩ := exists_obstacle?_eq_some resolved held here
      (by rw [shut]; exact Option.some_ne_none _)
    obtain rfl : _ = obstacle := Option.some.inj (told.symm.trans shut)
    refine ⟨first.names, error, ?_, (bars_iff resolved held).2 ⟨first, here, rfl, told⟩, ?_⟩
    · rw [walk_of_obstacle resolved held plain found]
      rfl
    · intro other error bars earlier
      obtain ⟨sight, mem, rfl, bad⟩ := (bars_iff resolved held).1 bars
      have order := tree.pairwise_sights base rights
      rw [whole, List.map_append, List.map_cons, List.pairwise_append, List.pairwise_cons] at order
      rw [whole, List.mem_append, List.mem_cons] at mem
      rcases mem with mem | rfl | mem
      · rw [free _ mem] at bad
        cases bad
      · exact List.lt_irrefl _ earlier
      · have later := order.2.1.1 sight.names (List.mem_map_of_mem mem)
        exact List.lt_irrefl _ (List.lt_trans earlier later)

/-- From a root that is no directory a walk finds nothing. From one that is a directory it finds all
typed source files, or fails at the first directory that cannot be listed if there is one; but if
the root spells the standard input, it finds nothing in any case. -/
theorem walk_finds (tree : Tree) (root : Path) :
    ((∀ base, ¬ tree.Opens root base) → (tree.walk root).outcome = .ok []) ∧
      ∀ base, tree.Opens root base →
        (root.isStandardInput = false →
          ((∀ names error, ¬ tree.Bars root base names error) →
              ∃ places, tree.FindsAll root base places) ∧
            ((∃ names error, tree.Bars root base names error) → tree.FailsFirst root base)) ∧
          (root.isStandardInput = true → (tree.walk root).outcome = .ok []) := by
  refine ⟨fun closed => ?_, fun base opens => ⟨fun plain => ⟨?_, ?_⟩, fun input => ?_⟩⟩
  · rw [walk_of_not_opens closed]
    rfl
  · exact exists_findsAll opens plain
  · rintro ⟨names, error, bars⟩
    exact failsFirst_of_bars opens plain bars
  · obtain ⟨slashed, rights, resolved, held⟩ := opens
    rw [walk_of_isStandardInput resolved held input]
    rfl

/-- No directory is in the way if the walk meets no obstacle. -/
lemma not_bars_of_all (resolved : tree.resolve false root = .ok ⟨base, slashed⟩)
    (held : tree.node? base = some (.directory rights))
    (clear : ∀ sight ∈ tree.sights base rights, obstacle? root sight = none) (names : List Bytes)
    (error : AccessError) : ¬ tree.Bars root base names error := by
  intro bars
  obtain ⟨sight, mem, -, bad⟩ := (bars_iff resolved held).1 bars
  rw [clear sight mem] at bad
  cases bad

/-- The root leads out of the working directory and back through a link, to a directory that holds a
link to itself, and the names begin alike; once one of the directories cannot be entered the walk
fails below it. -/
theorem walk_finds_around_loop :
    let path (text : String) : Path := Path.ofText text.toList
    let inner := (((((Tree.workingIn (path "/p")).makeFile (path "w/a/c/d.tsx") []).makeFile
      (path "w/a/b.ts") []).makeFile (path "w/a.ts") []).makeFile (path "w/.ts") []).makeLink
        (path "w/loop") (path "../w")
    let tree := inner.makeLink (path "/r") (path "/p/w")
    let shut := tree.insert [path "p", path "w", path "a"] (.directory ⟨true, false, true⟩)
    let root := path "../r"
    let base := [path "p", path "w"]
    tree.Opens root base ∧ (∀ names error, ¬ tree.Bars root base names error) ∧
      (∃ places, tree.FindsAll root base places ∧ places.map root.below =
        [path "../r/a/b.ts", path "../r/a/c/d.tsx", path "../r/a.ts"]) ∧
      shut.Opens root base ∧ shut.Bars root base [path "a", path "c"] .denied ∧
        shut.FailsFirst root base := by
  intro path inner tree shut root base
  have resolved : tree.resolve false root = .ok ⟨base, false⟩ := by decide +kernel
  have held : tree.node? base = some (.directory .full) := by decide +kernel
  have opens : tree.Opens root base := ⟨false, .full, resolved, held⟩
  have clear := not_bars_of_all resolved held (by decide +kernel)
  have plain : root.isStandardInput = false := by decide +kernel
  obtain ⟨places, all⟩ := (((tree.walk_finds root).2 base opens).1 plain).1 clear
  have files : tree.walk root =
      .files [path "../r/a/b.ts", path "../r/a/c/d.tsx", path "../r/a.ts"] := by
    decide +kernel
  have same := all.found
  rw [files] at same
  have resolved' : shut.resolve false root = .ok ⟨base, false⟩ := by decide +kernel
  have held' : shut.node? base = some (.directory .full) := by decide +kernel
  have opens' : shut.Opens root base := ⟨false, .full, resolved', held'⟩
  have bars : shut.Bars root base [path "a", path "c"] .denied :=
    (bars_iff resolved' held').2
      ⟨⟨[path "a", path "c"], .directory .full, false⟩, by decide +kernel, rfl, by decide +kernel⟩
  exact ⟨opens, clear, ⟨places, all, (Except.ok.inj same).symm⟩, opens', bars,
    (((shut.walk_finds root).2 base opens').1 plain).2 ⟨_, _, bars⟩⟩

/-- A directory is not walked if its path spells the standard input. -/
theorem walk_finds_nothing_at_dash :
    let path (text : String) : Path := Path.ofText text.toList
    let tree := Tree.empty.makeFile (path "-/a.ts") []
    let root := path "-"
    let base := [path "-"]
    tree.Opens root base ∧ (∀ names error, ¬ tree.Bars root base names error) ∧
      tree.HasTyped base [path "a.ts"] ∧ (tree.walk root).outcome = .ok [] ∧
        ∀ places, ¬ tree.FindsAll root base places := by
  intro path tree root base
  have resolved : tree.resolve false root = .ok ⟨base, false⟩ := by decide +kernel
  have held : tree.node? base = some (.directory .full) := by decide +kernel
  have clear := not_bars_of_all resolved held (by decide +kernel)
  have found : (tree.listing.under base).find? (path "a.ts") = some (.file [] .full, .nil) := by
    decide +kernel
  have typed : tree.HasTyped base [path "a.ts"] :=
    ⟨⟨[], .full, .here found⟩, path "a.ts", rfl, path "a", by decide, .inl (by decide)⟩
  have none : tree.walk root = .files [] := by decide +kernel
  have nothing : (tree.walk root).outcome = .ok [] := by rw [none]; rfl
  refine ⟨⟨false, .full, resolved, held⟩, clear, typed, nothing, fun places all => ?_⟩
  have same := Except.ok.inj (all.found.symm.trans nothing)
  have mem := (all.exactly _).2 typed
  rw [List.map_eq_nil_iff.1 same] at mem
  cases mem

end Tree

end Rehome
