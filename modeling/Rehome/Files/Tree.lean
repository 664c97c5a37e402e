import Rehome.Files.Path

/-!
# File trees

A tree holds what lies below the root of a machine: files, directories, links and devices, each at a
location, which is the list of names that lead there. Every directory lists its entries in the order
of their names, compared byte by byte, and all names are such as a path can spell. Main statements:
what a location holds after an insertion (`node?_insert_self`, `node?_insert_of_ne`).
-/

namespace Rehome

/-- The names that lead from the root of the machine to a place. -/
abbrev Location := List Bytes

/-- What may be done with a file or a device. -/
structure Access where
  readable : Bool
  writable : Bool
  deriving DecidableEq

namespace Access

def full : Access := ⟨true, true⟩

def readOnly : Access := ⟨true, false⟩

def closed : Access := ⟨false, false⟩

end Access

/-- What may be done with a directory. -/
structure Rights where
  listable : Bool
  /-- A path may lead through the directory. -/
  enterable : Bool
  /-- Files may be made in the directory. -/
  growable : Bool
  deriving DecidableEq

namespace Rights

def full : Rights := ⟨true, true, true⟩

def closed : Rights := ⟨false, false, false⟩

end Rights

/-- What a place holds. -/
inductive Node where
  | file (content : Bytes) (access : Access)
  | directory (rights : Rights)
  | link (target : Path)
  /-- Not a regular file, but to be read and written like one. It keeps nothing. -/
  | device (content : Bytes) (access : Access)
  deriving DecidableEq

/-- Whether a place holds a directory, whatever may be done with it. -/
def Node.isDirectory : Node → Bool
  | directory _ => true
  | file _ _ | link _ | device _ _ => false

/-- Whether a place holds a directory that paths may lead through. -/
def Node.isEnterable : Node → Bool
  | directory rights => rights.enterable
  | file _ _ | link _ | device _ _ => false

/-- The entries of a directory: the first one with what lies inside it, and the rest. -/
inductive Listing where
  | nil
  | entry (name : Bytes) (node : Node) (inside rest : Listing)
  deriving DecidableEq

namespace Listing

/-- The names listed. -/
def names : Listing → List Bytes
  | nil => []
  | entry name _ _ rest => name :: rest.names

/-- The entries are in the order of their names here and all the way down. -/
def Ordered : Listing → Prop
  | nil => True
  | entry name _ inside rest =>
    (∀ other ∈ rest.names, name < other) ∧ inside.Ordered ∧ rest.Ordered

/-- Only names that a path can spell are listed, here and all the way down. -/
def Named : Listing → Prop
  | nil => True
  | entry name _ inside rest => Path.IsName name ∧ inside.Named ∧ rest.Named

/-- What is listed under a name, and what lies inside it. -/
def find? (name : Bytes) : Listing → Option (Node × Listing)
  | nil => none
  | entry other node inside rest => if name = other then some (node, inside) else rest.find? name

/-- The listing with an entry where the order of names wants it, in place of one that is there
already. -/
def put (listing : Listing) (name : Bytes) (node : Node) (inside : Listing) : Listing :=
  match listing with
  | nil => entry name node inside nil
  | entry other old below rest =>
    if name < other then entry name node inside (entry other old below rest)
    else if name = other then entry name node inside rest
    else entry other old below (rest.put name node inside)

/-- What a location holds, from the directory on that has the listing. -/
def node? (listing : Listing) : Location → Option Node
  | [] => none
  | name :: more =>
    match listing.find? name with
    | none => none
    | some (node, inside) => if more = [] then some node else inside.node? more

/-- The listing inside the place that a location names. -/
def under (listing : Listing) : Location → Listing
  | [] => listing
  | name :: more =>
    match listing.find? name with
    | none => nil
    | some (_, inside) => inside.under more

/-- The listing with a node put at a location. What lies inside the place stays; where the place
before is missing nothing can be put. -/
def insert (node : Node) (listing : Listing) : Location → Listing
  | [] => listing
  | name :: more =>
    match listing.find? name with
    | none => if more = [] then listing.put name node nil else listing
    | some (old, inside) =>
      if more = [] then listing.put name node inside
      else listing.put name old (inside.insert node more)

/-- All that is listed, by location. A place comes before what lies inside it. -/
def entries : Listing → List (Location × Node)
  | nil => []
  | entry name node inside rest =>
    ([name], node) :: inside.entries.map (fun (location, node) => (name :: location, node)) ++
      rest.entries

theorem find?_put_self (name : Bytes) (node : Node) (inside listing : Listing) :
    (listing.put name node inside).find? name = some (node, inside) := by
  fun_induction put listing name node inside with
  | case1 => rw [find?, if_pos rfl]
  | case2 => rw [find?, if_pos rfl]
  | case3 => rw [find?, if_pos rfl]
  | case4 other old below rest _ different ih => rw [find?, if_neg different, ih]

theorem find?_put_of_ne {name other : Bytes} (node : Node) (inside listing : Listing)
    (ne : other ≠ name) : (listing.put name node inside).find? other = listing.find? other := by
  fun_induction put listing name node inside with
  | case1 => simp [find?, ne]
  | case2 => rw [find?, if_neg ne]
  | case3 => rw [find?, find?, if_neg ne, if_neg ne]
  | case4 head old below rest _ _ ih => rw [find?, find?, ih]

theorem mem_names_put {name other : Bytes} {node : Node} {inside listing : Listing}
    (mem : other ∈ (listing.put name node inside).names) :
    other = name ∨ other ∈ listing.names := by
  fun_induction put listing name node inside with
  | case1 => exact Or.inl (List.mem_singleton.1 mem)
  | case2 => exact List.mem_cons.1 mem
  | case3 =>
    rcases List.mem_cons.1 mem with here | later
    · exact Or.inl here
    · exact Or.inr (List.mem_cons_of_mem _ later)
  | case4 head old below rest _ _ ih =>
    rcases List.mem_cons.1 mem with rfl | later
    · exact Or.inr List.mem_cons_self
    · rcases ih later with here | before
      · exact Or.inl here
      · exact Or.inr (List.mem_cons_of_mem _ before)

theorem ordered_put {name : Bytes} {node : Node} {inside listing : Listing}
    (below : inside.Ordered) (ordered : listing.Ordered) :
    (listing.put name node inside).Ordered := by
  fun_induction put listing name node inside with
  | case1 => exact ⟨nofun, below, trivial⟩
  | case2 other old inner rest before =>
    refine ⟨fun next mem => ?_, below, ordered⟩
    rcases List.mem_cons.1 mem with rfl | later
    · exact before
    · exact List.lt_trans before (ordered.1 next later)
  | case3 => exact ⟨ordered.1, below, ordered.2.2⟩
  | case4 other old inner rest notBefore different ih =>
    refine ⟨fun next mem => ?_, ordered.2.1, ih ordered.2.2⟩
    rcases mem_names_put mem with rfl | before
    · exact Std.lt_of_le_of_ne (Std.not_lt.1 notBefore) (Ne.symm different)
    · exact ordered.1 next before

theorem ordered_of_find? {name : Bytes} {node : Node} {inside listing : Listing}
    (ordered : listing.Ordered) (found : listing.find? name = some (node, inside)) :
    inside.Ordered := by
  induction listing with
  | nil => cases found
  | entry other old inner rest _ ih =>
    rw [find?] at found
    split at found
    · cases found
      exact ordered.2.1
    · exact ih ordered.2.2 found

theorem ordered_insert (node : Node) {listing : Listing} (location : Location)
    (ordered : listing.Ordered) : (listing.insert node location).Ordered := by
  fun_induction insert node listing location with
  | case1 => exact ordered
  | case2 => exact ordered_put trivial ordered
  | case3 => exact ordered
  | case4 listing name old inside found =>
    exact ordered_put (ordered_of_find? ordered found) ordered
  | case5 listing name more old inside found _ ih =>
    exact ordered_put (ih (ordered_of_find? ordered found)) ordered

theorem named_put {name : Bytes} {node : Node} {inside listing : Listing}
    (proper : Path.IsName name) (below : inside.Named) (named : listing.Named) :
    (listing.put name node inside).Named := by
  fun_induction put listing name node inside with
  | case1 => exact ⟨proper, below, trivial⟩
  | case2 => exact ⟨proper, below, named⟩
  | case3 => exact ⟨proper, below, named.2.2⟩
  | case4 other old inner rest _ _ ih => exact ⟨named.1, named.2.1, ih named.2.2⟩

theorem named_of_find? {name : Bytes} {node : Node} {inside listing : Listing}
    (named : listing.Named) (found : listing.find? name = some (node, inside)) :
    Path.IsName name ∧ inside.Named := by
  induction listing with
  | nil => cases found
  | entry other old inner rest _ ih =>
    rw [find?] at found
    split at found
    · cases found
      subst other
      exact ⟨named.1, named.2.1⟩
    · exact ih named.2.2 found

theorem named_insert (node : Node) {listing : Listing} {location : Location}
    (proper : ∀ name ∈ location, Path.IsName name) (named : listing.Named) :
    (listing.insert node location).Named := by
  fun_induction insert node listing location with
  | case1 => exact named
  | case2 listing name found => exact named_put (proper name List.mem_cons_self) trivial named
  | case3 => exact named
  | case4 listing name old inside found =>
    obtain ⟨proper, below⟩ := named_of_find? named found
    exact named_put proper below named
  | case5 listing name more old inside found _ ih =>
    obtain ⟨proper', below⟩ := named_of_find? named found
    exact named_put proper' (ih (fun other mem => proper other (List.mem_cons_of_mem _ mem)) below)
      named

theorem node?_insert_self (node : Node) (listing : Listing) {location : Location}
    (ne : location ≠ [])
    (parent : location.dropLast = [] ∨ listing.node? location.dropLast ≠ none) :
    (listing.insert node location).node? location = some node := by
  fun_induction insert node listing location with
  | case1 => exact absurd rfl ne
  | case2 listing name found => simp [node?, find?_put_self]
  | case3 listing name more found nonempty =>
    obtain ⟨next, more, rfl⟩ := List.exists_cons_of_ne_nil nonempty
    simp [node?, found] at parent
  | case4 listing name old inside found => simp [node?, find?_put_self]
  | case5 listing name more old inside found nonempty ih =>
    obtain ⟨next, more, rfl⟩ := List.exists_cons_of_ne_nil nonempty
    simp only [node?, find?_put_self, if_neg nonempty]
    refine ih nonempty ?_
    cases more with
    | nil => exact Or.inl rfl
    | cons => simpa [node?, found] using parent

theorem node?_insert_of_ne (node : Node) (listing : Listing) {location other : Location}
    (ne : other ≠ location) : (listing.insert node location).node? other = listing.node? other := by
  fun_induction insert node listing location generalizing other with
  | case1 => rfl
  | case3 => rfl
  | case2 listing name found =>
    cases other with
    | nil => rfl
    | cons first rest =>
      by_cases same : first = name
      · subst same
        have : rest ≠ [] := fun empty => ne (by rw [empty])
        obtain ⟨next, rest, rfl⟩ := List.exists_cons_of_ne_nil this
        simp [node?, find?_put_self, found, find?]
      · simp only [node?, find?_put_of_ne _ _ _ same]
  | case4 listing name old inside found =>
    cases other with
    | nil => rfl
    | cons first rest =>
      by_cases same : first = name
      · subst same
        have : rest ≠ [] := fun empty => ne (by rw [empty])
        simp only [node?, find?_put_self, found, if_neg this]
      · simp only [node?, find?_put_of_ne _ _ _ same]
  | case5 listing name more old inside found nonempty ih =>
    cases other with
    | nil => rfl
    | cons first rest =>
      by_cases same : first = name
      · subst same
        simp only [node?, find?_put_self, found]
        split
        · rfl
        · exact ih fun equal => ne (by rw [equal])
      · simp only [node?, find?_put_of_ne _ _ _ same]

end Listing

/-- What lies below the root of a machine, and where a program works in it. -/
structure Tree where
  /-- What may be done with the root. -/
  rights : Rights
  listing : Listing
  /-- The directory that relative paths start from. They lead nowhere if it is gone. -/
  workingDirectory : Location
  ordered : listing.Ordered
  named : listing.Named
  deriving DecidableEq

namespace Tree

/-- A machine with nothing on it, and a program that works at its root. -/
def empty : Tree where
  rights := .full
  listing := .nil
  workingDirectory := []
  ordered := trivial
  named := trivial

/-- What a location holds. -/
def node? (tree : Tree) (location : Location) : Option Node :=
  if location = [] then some (.directory tree.rights) else tree.listing.node? location

/-- The tree with a node put at a location, if the place before is there and the names are such as a
path can spell. -/
def insert (tree : Tree) (location : Location) (node : Node) : Tree :=
  if proper : ∀ name ∈ location, Path.IsName name then
    { tree with
      listing := tree.listing.insert node location
      ordered := Listing.ordered_insert node location tree.ordered
      named := Listing.named_insert node proper tree.named }
  else tree

/-- All places by location. -/
def entries (tree : Tree) : List (Location × Node) :=
  tree.listing.entries

theorem node?_insert_self (tree : Tree) {location : Location} (node : Node) (ne : location ≠ [])
    (proper : ∀ name ∈ location, Path.IsName name)
    (parent : tree.node? location.dropLast ≠ none) :
    (tree.insert location node).node? location = some node := by
  rw [insert, dif_pos proper, node?, if_neg ne]
  refine Listing.node?_insert_self node tree.listing ne ?_
  by_cases top : location.dropLast = []
  · exact Or.inl top
  · rw [node?, if_neg top] at parent
    exact Or.inr parent

theorem node?_insert_of_ne (tree : Tree) {location other : Location} (node : Node)
    (ne : other ≠ location) : (tree.insert location node).node? other = tree.node? other := by
  rw [insert]
  split
  · rw [node?, node?]
    split
    · rfl
    · exact Listing.node?_insert_of_ne node tree.listing ne
  · rfl

theorem workingDirectory_insert (tree : Tree) (location : Location) (node : Node) :
    (tree.insert location node).workingDirectory = tree.workingDirectory := by
  rw [insert]
  split
  · rfl
  · rfl

end Tree

end Rehome
