import Rehome.Files.Path
import Rehome.Rewrite
import Rehome.Text.Quoted

/-!
# The log

What a run tells about its course. Each event has a level and is written on one line: the level,
what happened, and the values that belong to it.
-/

namespace Rehome

/-- How much an event matters. -/
inductive Level where
  | error
  | warn
  | info
  | debug
  deriving DecidableEq

namespace Level

/-- Places the levels from the gravest up. -/
def rank : Level → Nat
  | error => 0
  | warn => 1
  | info => 2
  | debug => 3

/-- The level as a line shows it. -/
def name : Level → Text
  | error => "ERROR".toList
  | warn => "WARN".toList
  | info => "INFO".toList
  | debug => "DEBUG".toList

end Level

/-- Something that happened in a run. -/
inductive Event where
  | noRules
  | loaded (count : Nat) (destination : Text)
  | scanning (root : Path)
  | noDirectory (root : Path)
  | checking (path : Path)
  | moved (rule : Rule)
  | clash (path : Path) (clash : Clash)
  | wouldUpdate (path : Path) (moved : List Text)
  | updated (path : Path) (moved : List Text)
  deriving DecidableEq

namespace Event

/-- How much the event matters. -/
def level : Event → Level
  | noRules | noDirectory _ | clash _ _ => .warn
  | wouldUpdate _ _ | updated _ _ => .info
  | loaded _ _ | scanning _ | checking _ | moved _ => .debug

/-- A value with its name. -/
def field (name : String) (value : Text) : Text :=
  [' '] ++ name.toList ++ ['='] ++ value

/-- What happened, with its values. -/
def describe : Event → Text
  | noRules => "relocation map has no types, nothing will change".toList
  | loaded count destination =>
    "loaded relocation map".toList ++ field "types" (Text.ofNat count) ++
      field "destination" destination
  | scanning root => "scanning".toList ++ field "root" root.display
  | noDirectory root =>
    "root is not a directory, skipping".toList ++ field "root" root.display
  | checking path => "checking imports".toList ++ field "path" path.display
  | moved rule =>
    "moved import".toList ++ field "type_name" rule.typeName ++ field "from" rule.home
  | clash path found =>
    "type is also imported from another module, left in place".toList ++
      field "path" path.display ++ field "type_name" found.typeName ++
      field "other_module" found.other
  | wouldUpdate path names =>
    "would update".toList ++ field "path" path.display ++ field "moved" (Quoted.list names)
  | updated path names =>
    "updated".toList ++ field "path" path.display ++ field "moved" (Quoted.list names)

/-- The line of the event. -/
def line (event : Event) : Text :=
  event.level.name ++ [' '] ++ event.describe

end Event

/-- The lines of the events up to a level; none at all without a level. -/
def logLines (level : Option Level) (events : List Event) : List Text :=
  match level with
  | none => []
  | some level => (events.filter fun event => event.level.rank ≤ level.rank).map Event.line

end Rehome
