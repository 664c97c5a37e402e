import Rehome.Import.Placement
import Rehome.Import.Statement
import Rehome.Rules.Basic

/-!
# Rewriting a text

A rule takes its type out of the first import of the type's home and lists it in the first import of
the destination. It leaves the text alone if a third module is a source of the same name too. A pass
tries every rule once, each on the text that the one before it left.
-/

namespace Rehome

/-- What a rule did to a text. -/
inductive Effect where
  /-- The first import of the home does not list the type, or there is none. -/
  | untouched
  | moved
  /-- Another module provides the type too; nothing was touched. -/
  | clash (other : Text)
  deriving DecidableEq

/-- A text after a rule, and what the rule did. -/
structure Rewrite where
  text : Text
  effect : Effect
  deriving DecidableEq

/-- A type that stays where it is because another module provides the same name. -/
structure Clash where
  typeName : Text
  home : Text
  other : Text
  deriving DecidableEq

namespace Text

/-- The text with `typeName` taken out of `statement`; an import left without names goes. -/
def withdraw (text : Text) (statement : Statement) (typeName : Text) : Text :=
  let new :=
    match statement.names.erase typeName with
    | [] => []
    | names => Import.render ⟨names, statement.module⟩
  text.splice statement.start statement.stop new

/-- The text with `typeName` imported from `destination`: last in the first import of that module,
or in an import of its own after the directive. -/
def enlist (text typeName destination : Text) : Text :=
  match text.importOf? destination with
  | some statement =>
    if typeName ∈ statement.names then text
    else
      text.splice statement.start statement.stop
        (Import.render ⟨statement.names ++ [typeName], statement.module⟩)
  | none => Placement.insert text (Import.render ⟨[typeName], destination⟩)

end Text

namespace Rule

/-- The first module besides home and destination that provides the rule's type in the text. -/
def rival? (rule : Rule) (destination text : Text) : Option Text :=
  (text.statements.find? fun statement => decide (statement.module ≠ rule.home ∧
    statement.module ≠ destination ∧ rule.typeName ∈ statement.names)).map fun statement =>
      statement.module

/-- The text after the rule's type has moved to `destination`. -/
def apply (rule : Rule) (destination text : Text) : Rewrite :=
  match text.importOf? rule.home with
  | none => ⟨text, .untouched⟩
  | some statement =>
    if rule.typeName ∉ statement.names then ⟨text, .untouched⟩
    else
      match rule.rival? destination text with
      | some other => ⟨text, .clash other⟩
      | none =>
        ⟨(text.withdraw statement rule.typeName).enlist rule.typeName destination, .moved⟩

end Rule

/-- A text after some rules: which of them moved their type, and which met a clash. -/
structure Pass where
  text : Text
  moved : List Rule
  clashes : List Clash
  deriving DecidableEq

namespace Pass

/-- The names that moved, in the order of their rules. -/
def movedNames (pass : Pass) : List Text :=
  pass.moved.map Rule.typeName

/-- The next rule, applied to the text that the pass has reached. -/
def step (destination : Text) (pass : Pass) (rule : Rule) : Pass :=
  match rule.apply destination pass.text with
  | ⟨_, .untouched⟩ => pass
  | ⟨text, .moved⟩ => { pass with text, moved := pass.moved ++ [rule] }
  | ⟨_, .clash other⟩ =>
    { pass with clashes := pass.clashes ++ [⟨rule.typeName, rule.home, other⟩] }

end Pass

/-- One pass of all the rules over a text. -/
def Rules.rewrite (rules : Rules) (text : Text) : Pass :=
  rules.list.foldl (Pass.step rules.destination) ⟨text, [], []⟩

end Rehome
