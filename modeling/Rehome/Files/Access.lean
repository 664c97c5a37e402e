import Rehome.Files.Tree

/-!
# Access by path

Where a path leads, links included, and reading, writing and listing there. Only a directory that
may be entered is passed through, and at most forty links are followed on one way.
-/

namespace Rehome

/-- Why a path cannot be used. -/
inductive AccessError where
  | missing
  | denied
  | notDirectory
  | isDirectory
  | nameTooLong
  | tooManyLinks
  | nulByte
  /-- The file is there and holds something else than UTF-8. -/
  | notText
  deriving DecidableEq

/-- What the user is told. -/
def AccessError.message : AccessError → Text
  | missing => "No such file or directory (os error 2)".toList
  | denied => "Permission denied (os error 13)".toList
  | notDirectory => "Not a directory (os error 20)".toList
  | isDirectory => "Is a directory (os error 21)".toList
  | nameTooLong => "File name too long (os error 36)".toList
  | tooManyLinks => "Too many levels of symbolic links (os error 40)".toList
  | nulByte => "file name contained an unexpected NUL byte".toList
  | notText => "stream did not contain valid UTF-8".toList

/-- Where a path leads. The location may hold nothing, but the directory that it lies in is
there. -/
structure Target where
  location : Location
  /-- The path ends in a slash and so means a directory. -/
  slashed : Bool
  deriving DecidableEq

/-- Where one step leads. -/
inductive Stride where
  | place (location : Location)
  /-- To a link in the directory where one is. -/
  | link (target : Path)

/-- How far a way leads before a link has to be followed. -/
inductive Leg where
  /-- To its end. -/
  | arrived (location : Location)
  /-- To a link in the directory `here`, with the steps `rest` behind it. -/
  | link (here : Location) (target : Path) (rest : List Step)

/-- Where the way along a path starts for one who is `here`. -/
def Path.start (path : Path) (here : Location) : Location :=
  if path.isAbsolute then [] else here

namespace Tree

/-- The longest path. -/
def maxPath : Nat := 4095

/-- How many links are followed on one way. -/
def maxLinks : Nat := 40

/-- What a step to a location leads to. Only the last one of a way may lead to where nothing is. -/
def land (tree : Tree) (last : Bool) (location : Location) : Except AccessError Stride :=
  match tree.node? location with
  | none => if last then .ok (.place location) else .error .missing
  | some (.link target) => .ok (.link target)
  | some _ => .ok (.place location)

/-- Takes one step in the directory `here`. The root is its own parent. `barred` says that no step
may lead to a name. -/
def stride (tree : Tree) (barred last : Bool) (here : Location) (step : Step) :
    Except AccessError Stride :=
  match tree.node? here with
  | some (.directory rights) =>
    if rights.enterable then
      match step with
      | .stay => .ok (.place here)
      | .parent => .ok (.place here.dropLast)
      | .name name =>
        if barred then .error .isDirectory
        else if Path.maxName < name.length then .error .nameTooLong
        else tree.land last (here ++ [name])
    else .error .denied
  | some (.file _ _) | some (.device _ _) => .error .notDirectory
  | _ => .error .missing

/-- Takes the steps from the directory `here` up to the first link. `slashed` says that a slash ends
the way; no file to be written is found at a name that has one behind it. -/
def leg (tree : Tree) (writing slashed : Bool) (here : Location) :
    List Step → Except AccessError Leg
  | [] => .ok (.arrived here)
  | step :: rest =>
    match tree.stride (writing && slashed && rest.isEmpty) rest.isEmpty here step with
    | .error e => .error e
    | .ok (.place location) => tree.leg writing slashed location rest
    | .ok (.link target) => .ok (.link here target rest)

/-- Takes the steps from the directory `here`, following up to `links` links. -/
def follow (tree : Tree) (writing : Bool) (links : Nat) (here : Location) (slashed : Bool)
    (steps : List Step) : Except AccessError Target :=
  match tree.leg writing slashed here steps with
  | .error e => .error e
  | .ok (.arrived location) => .ok ⟨location, slashed⟩
  | .ok (.link here target rest) =>
    match links with
    | 0 => .error .tooManyLinks
    | links + 1 =>
      -- A slash at the end of the target counts where the target ends the way.
      tree.follow writing links (target.start here) (slashed || rest.isEmpty && target.endsInSlash)
        (target.steps ++ rest)

/-- Where a path leads from the working directory. -/
def resolve (tree : Tree) (writing : Bool) (path : Path) : Except AccessError Target :=
  if 0 ∈ path then .error .nulByte
  else if maxPath < path.length then .error .nameTooLong
  else if path = [] then .error .missing
  else
    tree.follow writing maxLinks (path.start tree.workingDirectory) path.endsInSlash path.steps

/-- The bytes of the file that a path leads to. -/
def read (tree : Tree) (path : Path) : Except AccessError Bytes := do
  let target ← tree.resolve false path
  match tree.node? target.location with
  | some (.file content access) | some (.device content access) =>
    if target.slashed then throw .notDirectory
    else if access.readable then return content
    else throw .denied
  | some (.directory rights) => throw (if rights.listable then .isDirectory else .denied)
  | _ => throw .missing

/-- Whether files may be made at a location, in the directory that it lies in. -/
def mayGrow (tree : Tree) (location : Location) : Bool :=
  match tree.node? location.dropLast with
  | some (.directory rights) => rights.growable
  | _ => false

/-- The tree with `content` in the file that a path leads to. A file that is not there is made. What
a device is given is not seen again. -/
def write (tree : Tree) (path : Path) (content : Bytes) : Except AccessError Tree := do
  let target ← tree.resolve true path
  match tree.node? target.location with
  | some (.file _ access) =>
    if access.writable then return tree.insert target.location (.file content access)
    else throw .denied
  | some (.device _ access) => if access.writable then return tree else throw .denied
  | some _ => throw .isDirectory
  | none =>
    if tree.mayGrow target.location then return tree.insert target.location (.file content .full)
    else throw .denied

/-- What is listed in the directory that a path leads to. -/
def list (tree : Tree) (path : Path) : Except AccessError Listing := do
  let target ← tree.resolve false path
  match tree.node? target.location with
  | some (.directory rights) =>
    if rights.listable then return tree.listing.under target.location else throw .denied
  | some _ => throw .notDirectory
  | none => throw .missing

end Tree

end Rehome
