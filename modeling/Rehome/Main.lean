import Rehome.Command.Basic
import Rehome.Files.Changes
import Rehome.Files.Growth

/-!
# The program

The command line, over the files that standard input names, one path a line as `find` prints them.
They and the file of rules are what the program sees of the machine; what a run changes in it is
written back.
-/

namespace Rehome

/-- The lines of a stream up to its end, empty ones left out. -/
partial def readLines (input : IO.FS.Stream) (lines : List Text) : IO (List Text) := do
  let line ← input.getLine
  if line.isEmpty then return lines.reverse
  let text := line.toList.filter fun c => c ≠ '\n'
  readLines input (if text.isEmpty then lines else text :: lines)

/-- The tree with the file at a path, if a file is there. One that cannot be read is closed. -/
def addFile (tree : Tree) (name : Text) : IO Tree := do
  let path := Path.ofText name
  try
    let content ← IO.FS.readBinFile (String.ofList name)
    return tree.makeFile path content.toList
  catch
  | .noFileOrDirectory .. | .inappropriateType .. => return tree
  | _ =>
    let tree := tree.makeFile path []
    match tree.resolve false path with
    | .ok target => return tree.restrict target.location .closed
    | .error _ => return tree

/-- The files that a command line reads besides the sources. -/
def rulesFile (words : List Text) : List Text :=
  match Request.ofWords words with
  | .ok (.run arguments) => arguments.map.toList
  | _ => []

/-- The text of an environment variable. -/
def readVariable (name : String) : IO (Option Text) := do
  return (← IO.getEnv name).map String.toList

/-- What the command sees of the world. -/
def readSurroundings : IO Surroundings := do
  let noColor ← readVariable "NO_COLOR"
  let forceColor ← readVariable "FORCE_COLOR"
  let term ← readVariable "TERM"
  let logLevel ← readVariable "RUST_LOG"
  let terminal ← (← IO.getStdout).isTty
  return { noColor, forceColor, term, logLevel, terminal }

/-- The machine as far as it is known before any file is: the working directory and the way
there. -/
def readWorkingDirectory : IO Tree := do
  return .workingIn (Path.ofText (← IO.currentDir).toString.toList)

/-- Writes the bytes of a changed file. -/
def writeFile (location : Location) (content : Bytes) : IO Unit := do
  let path := Path.below [Path.slash] location
  IO.FS.writeBinFile (String.ofList path.display) ⟨content.toArray⟩

end Rehome

open Rehome in
/-- Runs the program and answers its exit code. -/
def main (arguments : List String) : IO UInt32 := do
  let words := arguments.map String.toList
  let names ← readLines (← IO.getStdin) []
  let tree ← (rulesFile words ++ names).foldlM addFile (← readWorkingDirectory)
  let ending := command words (← readSurroundings) tree
  for message in ending.messages do
    IO.eprintln (String.ofList message)
  IO.print (String.ofList ending.output)
  for (location, content) in tree.changes ending.tree do
    writeFile location content
  return ending.exitCode.toUInt32
