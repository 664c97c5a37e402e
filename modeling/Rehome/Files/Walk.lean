import Rehome.Files.Access

/-!
# Walking a tree

The typed source files below a root: every directory is listed by name, and each directory in it is
walked where it is listed. The root may be a link to a directory; below it links are neither
followed nor listed. One directory that cannot be listed spoils the walk.
-/

namespace Rehome

/-- What a walk finds. -/
inductive Walk where
  /-- The root is no directory. -/
  | noDirectory
  /-- The first directory on the way that cannot be listed, and why. -/
  | unlistable (directory : Path) (error : AccessError)
  | files (paths : List Path)
  deriving DecidableEq

/-- A place that a walk comes to. -/
structure Sight where
  /-- The names that lead there from the root of the walk. -/
  names : List Bytes
  node : Node
  /-- All directories on the way may be entered. -/
  passable : Bool
  deriving DecidableEq

/-- The same place, seen from the directory that the way there starts in. -/
def Sight.within (name : Bytes) (sight : Sight) : Sight :=
  { sight with names := name :: sight.names }

/-- All that a walk comes to in a directory and below; `passable` says that the way to the directory
is. Only what lies inside directories is come to. -/
def Listing.walk (passable : Bool) : Listing → List Sight
  | nil => []
  | entry name node inside rest =>
    let deeper := if node.isDirectory then inside.walk (passable && node.isEnterable) else []
    ⟨[name], node, passable⟩ :: deeper.map (Sight.within name) ++ rest.walk passable

namespace Tree

/-- What keeps a walk from `root` from listing a place that it comes to, with the path of the place.
It is listed by its path, which may have become too long. -/
def obstacle? (root : Path) (sight : Sight) : Option (Path × AccessError) :=
  match sight.node with
  | .directory rights =>
    let path := root.below sight.names
    if maxPath < path.length then some (path, .nameTooLong)
    else if sight.passable && rights.listable then none
    else some (path, .denied)
  | _ => none

/-- The path of a place that a walk from `root` comes to, if it is a typed source file. -/
def typedFile? (root : Path) (sight : Sight) : Option Path :=
  match sight.node with
  | .file _ _ =>
    match sight.names.getLast? with
    | some name => if Path.isTyped name then some (root.below sight.names) else none
    | none => none
  | _ => none

/-- All that a walk from the directory at a location comes to, the directory first. -/
def sights (tree : Tree) (location : Location) (rights : Rights) : List Sight :=
  ⟨[], .directory rights, true⟩ :: (tree.listing.under location).walk rights.enterable

/-- Walks the tree below a root. Every path found starts as the root is given. Below the standard
input there is nothing to find, even if a directory has its name. -/
def walk (tree : Tree) (root : Path) : Walk :=
  match tree.resolve false root with
  | .error _ => .noDirectory
  | .ok target =>
    match tree.node? target.location with
    | some (.directory rights) =>
      if root.isStandardInput then .files []
      else
        let sights := tree.sights target.location rights
        match sights.findSome? (obstacle? root) with
        | some (directory, error) => .unlistable directory error
        | none => .files (sights.filterMap (typedFile? root))
    | _ => .noDirectory

end Tree

end Rehome
