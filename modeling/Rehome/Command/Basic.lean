import Rehome.Command.Arguments
import Rehome.Command.Help
import Rehome.Run
import Rehome.Summary.Json
import Rehome.Summary.Text

/-!
# The command

A command line carried out in a tree: what is printed, how it ends and the tree that it leaves.
-/

namespace Rehome

/-- The variables and the terminal that a command sees. -/
structure Surroundings where
  noColor : Option Text
  forceColor : Option Text
  term : Option Text
  logLevel : Option Text
  /-- Whether the report goes to a terminal. -/
  terminal : Bool

namespace Surroundings

/-- Whether the report is to be coloured. -/
def wantsColor (around : Surroundings) : Coloring → Bool
  | .always => true
  | .never => false
  | .auto =>
    if around.noColor.isSome then false
    else if around.forceColor.isSome then true
    else if around.term = some "dumb".toList then false
    else around.terminal

/-- Whether the terminal can show colours and nobody has turned them off. -/
def allowsColor (around : Surroundings) : Bool :=
  around.noColor.isNone && around.term.isSome && around.term ≠ some "dumb".toList

/-- The level that the variable names. -/
def level (around : Surroundings) : Option Level :=
  match around.logLevel.map String.ofList with
  | some "off" => none
  | some "error" => some .error
  | some "info" => some .info
  | some "debug" => some .debug
  | _ => some .warn

end Surroundings

/-- How a command ends. -/
structure Ending where
  exitCode : Nat
  output : Text
  /-- The lines of the error output. -/
  messages : List Text
  tree : Tree

/-- The roots of a run that is given none. -/
def defaultRoots : List Text :=
  ["app".toList, "components".toList]

namespace Arguments

/-- The rules that the arguments ask for. -/
def rules (arguments : Arguments) (tree : Tree) : Except Fault Rules := do
  let rules ←
    match arguments.map with
    | none => pure Rules.standard
    | some path => Rules.load tree (Path.ofText path)
  match arguments.destination with
  | none => return rules
  | some destination => (rules.redirect destination).mapError .rules

/-- How much of the log is shown. -/
def level (arguments : Arguments) (around : Surroundings) : Option Level :=
  if arguments.quiet then some .error
  else if arguments.verbose then some .debug
  else around.level

/-- What the log tells of the rules before a run. -/
def prelude (rules : Rules) : List Event :=
  (if rules.list.isEmpty then [.noRules] else []) ++
    [.loaded rules.list.length rules.destination]

/-- The report of a run, unless the summary has no JSON and that is what was asked for. -/
def report? (arguments : Arguments) (around : Surroundings) (summary : Summary) : Option Text :=
  if arguments.json then summary.json?.map fun json => json ++ ['\n']
  else
    let colored := around.wantsColor (arguments.color.getD .auto) && around.allowsColor
    some (summary.text colored arguments.list)

/-- A message of the program itself. -/
def complaint (message : Text) : Text :=
  "typemove: ".toList ++ message

/-- Carries out a run. -/
def run (arguments : Arguments) (around : Surroundings) (tree : Tree) : Ending :=
  match arguments.rules tree with
  | .error fault => ⟨1, [], [complaint fault.message], tree⟩
  | .ok rules =>
    let roots := if arguments.roots.isEmpty then defaultRoots else arguments.roots
    let job : Job := ⟨rules, arguments.dryRun⟩
    let (run, result) := job.process tree (roots.map Path.ofText)
    let log := logLines (arguments.level around) (prelude rules ++ run.log)
    match result with
    | .error fault => ⟨1, [], log ++ [complaint fault.message], run.tree⟩
    | .ok () =>
      match arguments.report? around run.summary with
      | some report => ⟨0, report, log, run.tree⟩
      | none =>
        let message := "error writing output: path contains invalid UTF-8 characters".toList
        ⟨1, [], log ++ [complaint message], run.tree⟩

end Arguments

/-- Carries out a command line. -/
def command (words : List Text) (around : Surroundings) (tree : Tree) : Ending :=
  match Request.ofWords words with
  | .error error => ⟨2, [], ["error: ".toList ++ error.message], tree⟩
  | .ok (.help true) => ⟨0, Help.long, [], tree⟩
  | .ok (.help false) => ⟨0, Help.short, [], tree⟩
  | .ok .version => ⟨0, Help.version, [], tree⟩
  | .ok (.run arguments) => arguments.run around tree

end Rehome
