import Rehome.Files.Path
import Rehome.Rewrite

/-!
# Summaries

What a run has done: how many files it looked at, which of them it changed and which types it left
in place because of a clash.
-/

namespace Rehome

/-- A file that was changed, or would be, and the types that moved in it. -/
structure Change where
  path : Path
  moved : List Text
  deriving DecidableEq

/-- A clash and the file that it was met in. -/
structure FileClash where
  path : Path
  clash : Clash
  deriving DecidableEq

/-- The account of a run. -/
structure Summary where
  dryRun : Bool
  /-- How many files were looked at, counted in a machine word. -/
  scanned : UInt64
  changed : List Change
  clashes : List FileClash
  deriving DecidableEq

/-- The account of a run that has not looked at any file. -/
def Summary.empty (dryRun : Bool) : Summary :=
  ⟨dryRun, 0, [], []⟩

end Rehome
