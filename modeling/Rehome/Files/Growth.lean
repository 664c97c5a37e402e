import Rehome.Files.Access

/-!
# Growing a tree

Making directories, files and links by path, parents included, and changing what may be done with a
place.
-/

namespace Rehome

namespace Tree

/-- The tree with directories along the steps from the directory `here`, wherever nothing is there
yet, and the location where the steps end, unless they do not lead on. -/
def growAlong (tree : Tree) (here : Location) : List Step → Tree × Option Location
  | [] => (tree, some here)
  | step :: rest =>
    match tree.follow false maxLinks here false [step] with
    | .error _ => (tree, none)
    | .ok target =>
      match tree.node? target.location with
      | none => (tree.insert target.location (.directory .full)).growAlong target.location rest
      | some _ => tree.growAlong target.location rest

/-- A machine with nothing on it but the directories along a path, and a program that works in the
last of them. -/
def workingIn (path : Path) : Tree :=
  match empty.growAlong [] path.steps with
  | (tree, some location) => { tree with workingDirectory := location }
  | (tree, none) => tree

/-- The tree with a directory where a path leads, and directories on the way to it. -/
def makeDirectories (tree : Tree) (path : Path) : Tree :=
  (tree.growAlong (path.start tree.workingDirectory) path.steps).1

/-- The tree with a file at a path, and directories on the way to it. -/
def makeFile (tree : Tree) (path : Path) (content : Bytes) : Tree :=
  let tree := (tree.growAlong (path.start tree.workingDirectory) path.steps.dropLast).1
  match tree.write path content with
  | .ok grown => grown
  | .error _ => tree

/-- The tree with a link at a path, and directories on the way to it. -/
def makeLink (tree : Tree) (path target : Path) : Tree :=
  match tree.growAlong (path.start tree.workingDirectory) path.steps.dropLast,
      path.steps.getLast? with
  | (tree, some location), some (.name name) => tree.insert (location ++ [name]) (.link target)
  | (tree, _), _ => tree

/-- The tree with other rights at a place. A directory can be listed, entered and changed as a file
can be read and written. -/
def restrict (tree : Tree) (location : Location) (access : Access) : Tree :=
  match tree.node? location with
  | some (.file content _) => tree.insert location (.file content access)
  | some (.device content _) => tree.insert location (.device content access)
  | some (.directory _) =>
    tree.insert location (.directory ⟨access.readable, access.readable, access.writable⟩)
  | _ => tree

end Tree

end Rehome
