import Rehome.Text.Plain

/-!
# Arguments

What the words of a command line ask for. Words are taken from the left. An option waits for its
value, and it and the roots are only checked when the next option comes or the words end, so that
an unknown option is told first. After `--` every word is a root.
-/

namespace Rehome

/-- When colours are used. -/
inductive Coloring where
  | auto
  | always
  | never
  deriving DecidableEq

/-- What the words of a run ask for. -/
structure Arguments where
  roots : List Text
  map : Option Text
  destination : Option Text
  color : Option Coloring
  dryRun : Bool
  list : Bool
  json : Bool
  verbose : Bool
  quiet : Bool
  deriving DecidableEq

/-- What a command line asks for. -/
inductive Request where
  | run (arguments : Arguments)
  | help (long : Bool)
  | version
  deriving DecidableEq

/-- What is wrong with a command line. -/
inductive UsageError where
  | unexpected (word : Text)
  | unexpectedValue (value option : Text)
  | missingValue (option : Text)
  | invalidValue (value option : Text)
  | repeated (option : Text)
  | exclusive (first second : Text)
  deriving DecidableEq

namespace UsageError

/-- A word between single quotes. It may come from anywhere and is to steer no terminal. -/
def quoted (word : Text) : Text :=
  ['\''] ++ word.plain ++ ['\'']

/-- What the user is told. -/
def message : UsageError → Text
  | unexpected word => "unexpected argument ".toList ++ quoted word ++ " found".toList
  | unexpectedValue value option =>
    "unexpected value ".toList ++ quoted value ++ " for ".toList ++ quoted option ++
      " found; no more were expected".toList
  | missingValue option =>
    "a value is required for ".toList ++ quoted option ++ " but none was supplied".toList
  | invalidValue value option =>
    "invalid value ".toList ++ quoted value ++ " for ".toList ++ quoted option
  | repeated option =>
    "the argument ".toList ++ quoted option ++ " cannot be used multiple times".toList
  | exclusive first second =>
    "the argument ".toList ++ quoted first ++ " cannot be used with ".toList ++ quoted second

end UsageError

/-- An option that is there or not. -/
inductive Switch where
  | dryRun
  | list
  | json
  | verbose
  | quiet
  | help
  | version
  deriving DecidableEq

/-- An option that takes a value. -/
inductive Setting where
  | map
  | destination
  | color
  deriving DecidableEq

namespace Switch

/-- The long name of the switch, without its dashes. -/
def name : Switch → Text
  | dryRun => "dry-run".toList
  | list => "list".toList
  | json => "json".toList
  | verbose => "verbose".toList
  | quiet => "quiet".toList
  | help => "help".toList
  | version => "version".toList

/-- The switch as a message names it. -/
def shown (switch : Switch) : Text :=
  ['-', '-'] ++ switch.name

/-- The letter of the switch, if it has one. -/
def letter? : Switch → Option Char
  | dryRun => some 'n'
  | list => some 'l'
  | json => none
  | verbose => some 'v'
  | quiet => some 'q'
  | help => some 'h'
  | version => some 'V'

/-- All switches. -/
def all : List Switch :=
  [dryRun, list, json, verbose, quiet, help, version]

end Switch

namespace Setting

/-- The long name of the setting, without its dashes. -/
def name : Setting → Text
  | map => "map".toList
  | destination => "destination".toList
  | color => "color".toList

/-- The setting as a message names it. -/
def shown (setting : Setting) : Text :=
  let value :=
    match setting with
    | map => "FILE"
    | destination => "MODULE"
    | color => "WHEN"
  ['-', '-'] ++ setting.name ++ " <".toList ++ value.toList ++ ['>']

/-- All settings. -/
def all : List Setting :=
  [map, destination, color]

end Setting

/-- The roots as a message names them. -/
def rootsShown : Text :=
  "[ROOTS]...".toList

/-- What was given and not checked yet. -/
inductive Waiting where
  | nothing
  /-- A setting, with its value once that has come. -/
  | setting (setting : Setting) (value : Option Text)
  | roots (roots : List Text)
  deriving DecidableEq

/-- What has been read of a command line: the switches in the order in which they were given, what
the settings are, and what waits. -/
structure Reading where
  switches : List Switch
  map : Option Text
  destination : Option Text
  color : Option Coloring
  roots : List Text
  waiting : Waiting
  deriving DecidableEq

namespace Reading

/-- Nothing has been read. -/
def start : Reading :=
  ⟨[], none, none, none, [], .nothing⟩

/-- The reading with a setting set to a value. -/
def set (reading : Reading) (setting : Setting) (value : Text) : Except UsageError Reading :=
  match setting with
  | .map =>
    if reading.map.isSome then .error (.repeated setting.shown)
    else if value.isEmpty then .error (.missingValue setting.shown)
    else .ok { reading with map := some value }
  | .destination =>
    if reading.destination.isSome then .error (.repeated setting.shown)
    else .ok { reading with destination := some value }
  | .color =>
    if reading.color.isSome then .error (.repeated setting.shown)
    else if value.isEmpty then .error (.missingValue setting.shown)
    else if value = "auto".toList then .ok { reading with color := some .auto }
    else if value = "always".toList then .ok { reading with color := some .always }
    else if value = "never".toList then .ok { reading with color := some .never }
    else .error (.invalidValue value setting.shown)

/-- The reading with what waits checked and taken over. -/
def settle (reading : Reading) : Except UsageError Reading :=
  match reading.waiting with
  | .nothing => .ok reading
  | .setting setting none => .error (.missingValue setting.shown)
  | .setting setting (some value) => { reading with waiting := .nothing }.set setting value
  | .roots roots =>
    if [] ∈ roots then .error (.missingValue rootsShown)
    else .ok { reading with waiting := .nothing, roots := reading.roots ++ roots }

/-- The reading with one more root. -/
def addRoot (reading : Reading) (word : Text) : Except UsageError Reading :=
  match reading.waiting with
  | .roots roots => .ok { reading with waiting := .roots (roots ++ [word]) }
  | _ => reading.settle.map fun reading => { reading with waiting := .roots [word] }

/-- What the command line asks for when its words have ended. -/
def finish (reading : Reading) : Except UsageError Request := do
  let reading ← reading.settle
  let given (switch : Switch) : Bool := decide (switch ∈ reading.switches)
  match reading.switches.filter fun switch => switch = .verbose ∨ switch = .quiet with
  | first :: second :: _ => throw (.exclusive first.shown second.shown)
  | _ =>
    return .run
      { roots := reading.roots
        map := reading.map
        destination := reading.destination
        color := reading.color
        dryRun := given .dryRun
        list := given .list
        json := given .json
        verbose := given .verbose
        quiet := given .quiet }

end Reading

/-- What a switch leads to: the reading goes on, or the command line has got its answer. -/
abbrev Turn := Except UsageError (Reading ⊕ Request)

/-- Takes a switch; `long` is how it was spelt. -/
def Switch.take (switch : Switch) (long : Bool) (reading : Reading) : Turn := do
  let reading ← reading.settle
  match switch with
  | .help => return .inr (.help long)
  | .version => return .inr .version
  | switch =>
    if switch ∈ reading.switches then throw (.repeated switch.shown)
    else return .inl { reading with switches := reading.switches ++ [switch] }

/-- Takes a setting, with its value if that is joined to the word. -/
def Setting.take (setting : Setting) (value : Option Text) (reading : Reading) :
    Except UsageError Reading := do
  let reading ← reading.settle
  match value with
  | some value => reading.set setting value
  | none => return { reading with waiting := .setting setting none }

/-- Takes a word from behind its two dashes. -/
def takeLong (word : Text) (reading : Reading) : Turn :=
  let name := word.takeWhile (· ≠ '=')
  let value :=
    match word.dropWhile (· ≠ '=') with
    | [] => none
    | _ :: value => some value
  match Setting.all.find? fun setting => setting.name = name with
  | some setting => (setting.take value reading).map .inl
  | none =>
    match Switch.all.find? fun switch => switch.name = name, value with
    | some switch, none => switch.take true reading
    | some switch, some value => .error (.unexpectedValue value switch.shown)
    | none, _ => .error (.unexpected (['-', '-'] ++ name))

/-- Takes the letters of a word from behind its one dash. -/
def takeLetters (letters : Text) (reading : Reading) : Turn :=
  match letters with
  | [] => .ok (.inl reading)
  | letter :: rest =>
    match Switch.all.find? fun switch => switch.letter? = some letter with
    | none => .error (.unexpected ['-', letter])
    | some switch =>
      match switch.take false reading with
      | .ok (.inl reading) => takeLetters rest reading
      | turn => turn

/-- Takes a word that is no option. -/
def takeValue (word : Text) (reading : Reading) : Except UsageError Reading :=
  match reading.waiting with
  | .setting setting none => .ok { reading with waiting := .setting setting (some word) }
  | _ => reading.addRoot word

/-- Takes words of which each is a root. -/
def takeRoots (words : List Text) (reading : Reading) : Except UsageError Request := do
  let reading ← words.foldlM Reading.addRoot reading
  reading.finish

/-- Takes the words of a command line in order. -/
def takeWords (words : List Text) (reading : Reading) : Except UsageError Request :=
  match words with
  | [] => reading.finish
  | ['-', '-'] :: rest => takeRoots rest reading
  | word :: rest => do
    let turn ←
      match word with
      | '-' :: '-' :: long => takeLong long reading
      | '-' :: letter :: letters => takeLetters (letter :: letters) reading
      | word => (takeValue word reading).map .inl
    match turn with
    | .inl reading => takeWords rest reading
    | .inr request => return request

/-- What a command line asks for. -/
def Request.ofWords (words : List Text) : Except UsageError Request :=
  takeWords words .start

end Rehome
