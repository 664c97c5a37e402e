import Rehome.Files.Walk
import Rehome.Proofs.Files.Tree

/-!
# Outlines of trees

What a tree is like apart from what its files hold and what may be done with them. Neither where a
path leads nor what a walk finds depends on more. Main statements: `Alike.resolve_eq` and
`Alike.walk_eq`, and that trees are alike if their locations hold the same kinds of nodes
(`alike_iff`).
-/

namespace Rehome

/-- The node, as an empty file if it is a file. -/
def Node.outline : Node → Node
  | file _ _ => file [] .full
  | directory rights => directory rights
  | link target => link target
  | device content access => device content access

/-- The sight, of an empty file if it is one of a file. -/
def Sight.outline (sight : Sight) : Sight :=
  { sight with node := sight.node.outline }

namespace Listing

/-- The listing with other nodes in the same places. -/
def map (f : Node → Node) : Listing → Listing
  | nil => nil
  | entry name node inside rest => entry name (f node) (inside.map f) (rest.map f)

variable {f : Node → Node} {listing : Listing}

@[simp] lemma names_map : (listing.map f).names = listing.names := by
  induction listing with
  | nil => rfl
  | entry name node inside rest _ ih => exact congrArg (name :: ·) ih

lemma find?_map (name : Bytes) : (listing.map f).find? name =
    (listing.find? name).map fun (node, inside) => (f node, inside.map f) := by
  induction listing with
  | nil => rfl
  | entry other node inside rest _ ih =>
    rw [map, find?, find?]
    split
    · rfl
    · exact ih

lemma node?_map (location : Location) :
    (listing.map f).node? location = (listing.node? location).map f := by
  induction location generalizing listing with
  | nil => rfl
  | cons name more ih =>
    rw [node?, node?, find?_map]
    cases listing.find? name with
    | none => rfl
    | some entry =>
      dsimp only [Option.map_some]
      split
      · rfl
      · exact ih

lemma under_map (location : Location) :
    (listing.map f).under location = (listing.under location).map f := by
  induction location generalizing listing with
  | nil => rfl
  | cons name more ih =>
    rw [under, under, find?_map]
    cases listing.find? name with
    | none => rfl
    | some entry => exact ih

lemma Ordered.map (h : listing.Ordered) (f : Node → Node) : (listing.map f).Ordered := by
  induction listing with
  | nil => trivial
  | entry name node inside rest ihInside ihRest =>
    refine ⟨?_, ihInside h.2.1, ihRest h.2.2⟩
    rw [names_map]
    exact h.1

lemma Named.map (h : listing.Named) (f : Node → Node) : (listing.map f).Named := by
  induction listing with
  | nil => trivial
  | entry name node inside rest ihInside ihRest => exact ⟨h.1, ihInside h.2.1, ihRest h.2.2⟩

@[simp] lemma isDirectory_outline (node : Node) : node.outline.isDirectory = node.isDirectory := by
  cases node <;> rfl

@[simp] lemma isEnterable_outline (node : Node) : node.outline.isEnterable = node.isEnterable := by
  cases node <;> rfl

lemma walk_outline (passable : Bool) :
    (listing.map Node.outline).walk passable = (listing.walk passable).map Sight.outline := by
  induction listing generalizing passable with
  | nil => rfl
  | entry name node inside rest ihInside ihRest =>
    rw [map, walk, walk, isDirectory_outline, isEnterable_outline, ihInside, ihRest]
    have same : Sight.within name ∘ Sight.outline = Sight.outline ∘ Sight.within name := rfl
    cases node.isDirectory with
    | true => simp [same, Sight.outline]
    | false => simp [Sight.outline]

end Listing

namespace Tree

/-- The tree with all files empty. -/
def outline (tree : Tree) : Tree where
  rights := tree.rights
  listing := tree.listing.map Node.outline
  workingDirectory := tree.workingDirectory
  ordered := tree.ordered.map _
  named := tree.named.map _

/-- The trees differ at most in what their files hold and in what may be done with them. -/
def Alike (a b : Tree) : Prop :=
  a.outline = b.outline

variable {tree a b : Tree}

lemma node?_outline (location : Location) :
    tree.outline.node? location = (tree.node? location).map Node.outline := by
  rw [node?, node?]
  split
  · rfl
  · exact Listing.node?_map location

/-! ### Where paths lead -/

lemma land_outline (last : Bool) (location : Location) :
    tree.outline.land last location = tree.land last location := by
  rw [land, land, node?_outline]
  cases tree.node? location with
  | none => rfl
  | some node => cases node <;> rfl

lemma stride_outline (barred last : Bool) (here : Location) (step : Step) :
    tree.outline.stride barred last here step = tree.stride barred last here step := by
  unfold stride
  rw [node?_outline]
  cases tree.node? here with
  | none => rfl
  | some node =>
    cases node with
    | file content access => rfl
    | link target => rfl
    | device content access => rfl
    | directory rights =>
      cases step with
      | stay => rfl
      | parent => rfl
      | name name =>
        dsimp only [Option.map_some, Node.outline]
        rw [land_outline]

lemma leg_outline (writing slashed : Bool) (here : Location) (steps : List Step) :
    tree.outline.leg writing slashed here steps = tree.leg writing slashed here steps := by
  induction steps generalizing here with
  | nil => rfl
  | cons step rest ih =>
    rw [leg, leg, stride_outline]
    cases tree.stride (writing && slashed && rest.isEmpty) rest.isEmpty here step with
    | error e => rfl
    | ok stride =>
      cases stride with
      | place location => exact ih location
      | link target => rfl

lemma follow_outline (writing : Bool) (links : Nat) (here : Location) (slashed : Bool)
    (steps : List Step) : tree.outline.follow writing links here slashed steps =
      tree.follow writing links here slashed steps := by
  induction links generalizing here slashed steps with
  | zero => rw [follow, follow, leg_outline]
  | succ links ih =>
    rw [follow, follow, leg_outline]
    cases tree.leg writing slashed here steps with
    | error e => rfl
    | ok leg =>
      cases leg with
      | arrived location => rfl
      | link here target rest => exact ih _ _ _

lemma resolve_outline (writing : Bool) (path : Path) :
    tree.outline.resolve writing path = tree.resolve writing path := by
  rw [resolve, resolve, follow_outline]
  rfl

/-! ### What walks find -/

lemma obstacle?_outline (root : Path) (sight : Sight) :
    obstacle? root sight.outline = obstacle? root sight := by
  obtain ⟨names, node, passable⟩ := sight
  cases node <;> rfl

lemma typedFile?_outline (root : Path) (sight : Sight) :
    typedFile? root sight.outline = typedFile? root sight := by
  obtain ⟨names, node, passable⟩ := sight
  cases node <;> rfl

lemma sights_outline (location : Location) (rights : Rights) :
    tree.outline.sights location rights = (tree.sights location rights).map Sight.outline := by
  rw [sights, sights, List.map_cons, ← Listing.walk_outline, ← Listing.under_map]
  rfl

lemma walk_outline (root : Path) : tree.outline.walk root = tree.walk root := by
  rw [walk, walk, resolve_outline]
  cases tree.resolve false root with
  | error e => rfl
  | ok target =>
    dsimp only
    rw [node?_outline]
    cases tree.node? target.location with
    | none => rfl
    | some node =>
      cases node with
      | file content access => rfl
      | link target => rfl
      | device content access => rfl
      | directory rights =>
        dsimp only [Option.map_some, Node.outline]
        rw [sights_outline, List.findSome?_map, List.filterMap_map]
        have obstacles : obstacle? root ∘ Sight.outline = obstacle? root :=
          funext (obstacle?_outline root)
        have files : typedFile? root ∘ Sight.outline = typedFile? root :=
          funext (typedFile?_outline root)
        rw [obstacles, files]

namespace Alike

lemma resolve_eq (h : Alike a b) (writing : Bool) (path : Path) :
    a.resolve writing path = b.resolve writing path := by
  rw [← resolve_outline, h, resolve_outline]

lemma walk_eq (h : Alike a b) (root : Path) : a.walk root = b.walk root := by
  rw [← walk_outline, h, walk_outline]

lemma refl (tree : Tree) : Alike tree tree :=
  rfl

lemma symm (h : Alike a b) : Alike b a :=
  Eq.symm h

lemma trans {c : Tree} (h : Alike a b) (h' : Alike b c) : Alike a c :=
  Eq.trans h h'

lemma workingDirectory_eq (h : Alike a b) : a.workingDirectory = b.workingDirectory := by
  have same : a.outline.workingDirectory = b.outline.workingDirectory := by rw [h]
  exact same

end Alike

/-- Trees are alike if programs work in the same place and their locations hold the same kinds of
nodes. -/
lemma alike_iff : Alike a b ↔ a.workingDirectory = b.workingDirectory ∧ ∀ location,
    (a.node? location).map Node.outline = (b.node? location).map Node.outline := by
  constructor
  · intro h
    refine ⟨h.workingDirectory_eq, fun location => ?_⟩
    rw [← node?_outline, h, node?_outline]
  · rintro ⟨place, h⟩
    refine ext_node? place fun location => ?_
    rw [node?_outline, node?_outline, h]

/-- A tree in which some places have become what has the same outline is alike. -/
lemma alike_of_map {f : Node → Node} (keeps : ∀ node, (f node).outline = node.outline)
    {p : Location → Prop} [DecidablePred p] (place : b.workingDirectory = a.workingDirectory)
    (h : ∀ location, b.node? location =
      if p location then (a.node? location).map f else a.node? location) : Alike a b := by
  rw [alike_iff]
  refine ⟨place.symm, fun location => ?_⟩
  rw [h]
  split
  case isTrue => rw [Option.map_map, Function.comp_def, funext keeps]
  case isFalse => rfl

end Tree

end Rehome
