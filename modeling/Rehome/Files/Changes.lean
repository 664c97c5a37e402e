import Rehome.Files.Tree

/-!
# Changes between trees

The files that one tree has and another has not, or has with other bytes.
-/

namespace Rehome

namespace Tree

/-- The bytes of the file at a location. -/
def content? (tree : Tree) (location : Location) : Option Bytes :=
  match tree.node? location with
  | some (.file content _) => some content
  | _ => none

/-- The files of `after` whose bytes are not those that `before` has at the same location. -/
def changes (before after : Tree) : List (Location × Bytes) :=
  after.entries.filterMap fun (location, node) =>
    match node with
    | .file content _ =>
      if before.content? location = some content then none else some (location, content)
    | _ => none

end Tree

end Rehome
