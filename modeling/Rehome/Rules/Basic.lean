import Rehome.Text.Basic

/-!
# Rules

Which type names move, the module that each is taken from now, and the one module that all of them
move to. No name has two rules, and no rule starts at the destination: a set of rules holds proofs
of both. Main statement: rules form a set exactly if both conditions are met (`ofList_isOk_iff`).
-/

namespace Rehome

/-- A type name and the module that it is imported from now, its home. -/
structure Rule where
  typeName : Text
  home : Text
  deriving DecidableEq

/-- Why rules do not form a set. -/
inductive RuleError where
  /-- The name has a rule already. -/
  | duplicate (typeName : Text)
  /-- The rule's home is the destination. -/
  | atDestination (typeName destination : Text)
  deriving DecidableEq

namespace RuleError

/-- What the user is told. -/
def message : RuleError → Text
  | duplicate typeName =>
    "type `".toList ++ typeName ++ "` is mapped to more than one source module".toList
  | atDestination typeName destination =>
    "type `".toList ++ typeName ++ "` already lives in destination `".toList ++ destination ++
      "`".toList

end RuleError

/-- Rules in the order in which they are tried, with their destination. -/
structure Rules where
  destination : Text
  list : List Rule
  nodup : (list.map Rule.typeName).Nodup
  away : ∀ rule ∈ list, rule.home ≠ destination

namespace Rules

/-- What is wrong with the first rule that cannot join those before it, whose names are `seen`. A
repeated name is told before a home at the destination. -/
def fault? (destination : Text) (seen : List Text) : List Rule → Option RuleError
  | [] => none
  | rule :: rest =>
    if rule.typeName ∈ seen then some (.duplicate rule.typeName)
    else if rule.home = destination then some (.atDestination rule.typeName destination)
    else fault? destination (rule.typeName :: seen) rest

theorem fault?_eq_none_iff {destination : Text} {seen : List Text} {list : List Rule} :
    fault? destination seen list = none ↔
      (list.map Rule.typeName).Nodup ∧ (∀ rule ∈ list, rule.typeName ∉ seen) ∧
        ∀ rule ∈ list, rule.home ≠ destination := by
  induction list generalizing seen with
  | nil => simp [fault?]
  | cons rule rest ih =>
    rw [fault?]
    by_cases old : rule.typeName ∈ seen
    · simp [old]
    by_cases here : rule.home = destination
    · simp [old, here]
    rw [if_neg old, if_neg here, ih]
    rw [List.forall_mem_cons, List.forall_mem_cons]
    simp only [List.map_cons, List.nodup_cons, List.mem_map, List.mem_cons, not_or]
    constructor
    · intro ⟨nodup, fresh, away⟩
      exact ⟨⟨fun ⟨r, mem, eq⟩ => (fresh r mem).1 eq, nodup⟩, ⟨old, fun r mem => (fresh r mem).2⟩,
        here, away⟩
    · intro ⟨⟨unique, nodup⟩, ⟨_, fresh⟩, _, away⟩
      exact ⟨nodup, fun r mem => ⟨fun eq => unique ⟨r, mem, eq⟩, fresh r mem⟩, away⟩

/-- The rules as a set, unless one of them cannot join those before it. -/
def ofList (destination : Text) (list : List Rule) : Except RuleError Rules :=
  match faultless : fault? destination [] list with
  | none => .ok ⟨destination, list, (fault?_eq_none_iff.1 faultless).1,
      (fault?_eq_none_iff.1 faultless).2.2⟩
  | some error => .error error

/-- The same rules with another destination. -/
def redirect (rules : Rules) (destination : Text) : Except RuleError Rules :=
  ofList destination rules.list

/-- The module that types move to when none is named. -/
def defaultDestination : Text := "@/types".toList

/-- The rules that come with the program. -/
def standard : Rules where
  destination := defaultDestination
  list :=
    [⟨"Product".toList, "@/utils/dummyData".toList⟩,
      ⟨"CartItem".toList, "@/utils/dummyData".toList⟩,
      ⟨"Order".toList, "@/utils/orderStorage".toList⟩,
      ⟨"Review".toList, "@/utils/boardStorage".toList⟩,
      ⟨"ProductInquiry".toList, "@/utils/boardStorage".toList⟩,
      ⟨"OneToOneInquiry".toList, "@/utils/boardStorage".toList⟩,
      ⟨"Notice".toList, "@/utils/boardStorage".toList⟩,
      ⟨"FAQ".toList, "@/utils/boardStorage".toList⟩,
      ⟨"AdminUser".toList, "@/utils/userStorage".toList⟩,
      ⟨"User".toList, "@/utils/userStorage".toList⟩]
  nodup := by decide
  away := by decide

/-- Rules form a set exactly if no name is repeated and no home is the destination. -/
theorem ofList_isOk_iff {destination : Text} {list : List Rule} :
    (ofList destination list).isOk ↔
      (list.map Rule.typeName).Nodup ∧ ∀ rule ∈ list, rule.home ≠ destination := by
  have faultless : fault? destination [] list = none ↔ _ := fault?_eq_none_iff
  rw [ofList]
  split
  case h_1 none => simpa [Except.isOk, Except.toBool, none] using faultless
  case h_2 error some => simpa [Except.isOk, Except.toBool, some] using faultless

end Rules

end Rehome
