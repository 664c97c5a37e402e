import Rehome.Fault
import Rehome.Files.Walk
import Rehome.Log
import Rehome.Summary.Basic

/-!
# Runs

The rules applied to every typed source file below some roots. The first fault ends a run; what was
written until then stays written and what was counted stays counted.
-/

namespace Rehome

/-- What a run is to do. -/
structure Job where
  rules : Rules
  dryRun : Bool

/-- How far a run has come: the tree as it stands now, the account and the log. -/
structure Run where
  tree : Tree
  summary : Summary
  log : List Event

namespace Run

/-- A run that begins in a tree. -/
def start (tree : Tree) (dryRun : Bool) : Run :=
  ⟨tree, .empty dryRun, []⟩

/-- The run with more events. -/
def tell (run : Run) (events : List Event) : Run :=
  { run with log := run.log ++ events }

/-- The run with one more file counted. -/
def countFile (run : Run) (path : Path) : Run :=
  { run with summary.scanned := run.summary.scanned + 1, log := run.log ++ [.checking path] }

/-- The run with the moves in a file told, and its clashes told and counted. -/
def note (run : Run) (path : Path) (pass : Pass) : Run :=
  { run with
    summary.clashes := run.summary.clashes ++ pass.clashes.map (FileClash.mk path)
    log := run.log ++ pass.moved.map .moved ++ pass.clashes.map (.clash path) }

/-- The run with a file counted as changed, and told to be by `event`. -/
def countChange (run : Run) (path : Path) (pass : Pass) (event : Event) : Run :=
  { run with
    summary.changed := run.summary.changed ++ [⟨path, pass.movedNames⟩]
    log := run.log ++ [event] }

/-- Takes a step for each of some paths in order, up to the first fault. -/
def each {α : Type} (step : Path → Run → Run × Except Fault α) (run : Run) :
    List Path → Run × Except Fault Unit
  | [] => (run, .ok ())
  | path :: rest =>
    match step path run with
    | (run, .error fault) => (run, .error fault)
    | (run, .ok _) => each step run rest

end Run

namespace Job

/-- Applies the rules to the file that a path leads to. Answers whether a type has moved in it, or
would have. -/
def file (job : Job) (path : Path) (run : Run) : Run × Except Fault Bool :=
  let run := run.countFile path
  match run.tree.readText path with
  | .error fault => (run, .error fault)
  | .ok text =>
    let pass := job.rules.rewrite text
    let run := run.note path pass
    if pass.moved.isEmpty then (run, .ok false)
    else if job.dryRun then
      (run.countChange path pass (.wouldUpdate path pass.movedNames), .ok true)
    else
      match run.tree.writeText path pass.text with
      | .error fault => (run, .error fault)
      | .ok tree =>
        let run := { run with tree }
        (run.countChange path pass (.updated path pass.movedNames), .ok true)

/-- Applies the rules to some files in order, up to the first fault. -/
def files (job : Job) (run : Run) (paths : List Path) : Run × Except Fault Unit :=
  run.each job.file paths

/-- Applies the rules to the files below a root. -/
def root (job : Job) (root : Path) (run : Run) : Run × Except Fault Unit :=
  let run := run.tell [.scanning root]
  match run.tree.walk root with
  | .noDirectory => (run.tell [.noDirectory root], .ok ())
  | .unlistable directory error => (run, .error (.unlistable directory error))
  | .files paths => job.files run paths

/-- Applies the rules to the files below some roots in order, up to the first fault. -/
def roots (job : Job) (run : Run) (roots : List Path) : Run × Except Fault Unit :=
  run.each job.root roots

/-- A whole run in a tree. -/
def process (job : Job) (tree : Tree) (roots : List Path) : Run × Except Fault Unit :=
  job.roots (.start tree job.dryRun) roots

end Job

end Rehome
