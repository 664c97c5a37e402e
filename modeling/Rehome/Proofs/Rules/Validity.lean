import Mathlib.Data.Fintype.Basic
import Mathlib.Data.List.Nodup
import Mathlib.Tactic.Lemma
import Rehome.Command.Basic

/-!
# Which rules form a set

Rules are looked at in order, and the first that cannot join those before it is told. Once they form
a set they stay one, however often the destination changes. Main statements: which rule is told
(`Rules.ofList_eq_error_iff`), what the ways to come by rules have in common
(`Rules.Obtained.list_eq`) and both together (`Rules.ofList_exact`).
-/

namespace Rehome

namespace Rules

/-- The name of the rule at a place stands at an earlier place too. -/
def Repeats (list : List Rule) (i : Fin list.length) : Prop :=
  ∃ j < i, list[j].typeName = list[i].typeName

/-- The rule at a place cannot join those before it. -/
def Misfit (destination : Text) (list : List Rule) (i : Fin list.length) : Prop :=
  Repeats list i ∨ list[i].home = destination

instance (list : List Rule) (i : Fin list.length) : Decidable (Repeats list i) :=
  inferInstanceAs (Decidable (∃ j < i, _))

instance (destination : Text) (list : List Rule) (i : Fin list.length) :
    Decidable (Misfit destination list i) :=
  inferInstanceAs (Decidable (_ ∨ _))

/-- What is told of the first rule that cannot join those before it: that its name is repeated, or
else that its home is the destination. -/
inductive Refusal (destination : Text) (list : List Rule) : RuleError → Prop
  | duplicate {i : Fin list.length} (least : ∀ j < i, ¬ Misfit destination list j)
      (repeats : Repeats list i) :
    Refusal destination list (.duplicate list[i].typeName)
  | atDestination {i : Fin list.length} (least : ∀ j < i, ¬ Misfit destination list j)
      (fresh : ¬ Repeats list i) (here : list[i].home = destination) :
    Refusal destination list (.atDestination list[i].typeName destination)

variable {destination : Text} {seen : List Text} {list front back : List Rule} {rule : Rule}
  {error other : RuleError} {rules new : Rules}

/-! ### The first misfit -/

lemma typeName_ne_of_nodup (nodup : (list.map Rule.typeName).Nodup) {i j : Nat} (before : j < i)
    (bound : i < list.length) : list[j].typeName ≠ list[i].typeName :=
  List.pairwise_iff_getElem.1 (List.pairwise_map.1 nodup) j i (Nat.lt_trans before bound) bound
    before

lemma repeats_append_iff (i : Fin (front ++ rule :: back).length) (here : i.val = front.length) :
    Repeats (front ++ rule :: back) i ↔ rule.typeName ∈ front.map Rule.typeName := by
  have at_i : (front ++ rule :: back)[i] = rule := by
    simp [here]
  rw [Repeats, at_i, List.mem_map]
  constructor
  · rintro ⟨j, before, same⟩
    have short : j.val < front.length := here ▸ before
    refine ⟨front[j.val], List.getElem_mem short, ?_⟩
    rw [← same, Fin.getElem_fin, List.getElem_append_left short]
  · rintro ⟨earlier, mem, same⟩
    obtain ⟨j, short, rfl⟩ := List.mem_iff_getElem.1 mem
    have before : j < i.val := here.symm ▸ short
    refine ⟨⟨j, Nat.lt_trans before i.isLt⟩, before, ?_⟩
    rw [← same, Fin.getElem_fin, List.getElem_append_left short]

/-- Rules that form a set have no misfit, whatever comes behind them. -/
lemma not_misfit_append (nodup : (front.map Rule.typeName).Nodup)
    (away : ∀ rule ∈ front, rule.home ≠ destination) (i : Fin (front ++ back).length)
    (early : i.val < front.length) : ¬ Misfit destination (front ++ back) i := by
  have at_i : (front ++ back)[i] = front[i.val] := by
    rw [Fin.getElem_fin, List.getElem_append_left early]
  rintro (⟨j, before, same⟩ | here)
  · have early' : j.val < front.length := Nat.lt_trans before early
    rw [at_i, Fin.getElem_fin, List.getElem_append_left early'] at same
    exact typeName_ne_of_nodup nodup before early same
  · rw [at_i] at here
    exact away _ (List.getElem_mem early) here

/-- The look through the rules stops behind a first part in which nothing is wrong. -/
lemma exists_of_fault?_eq_some (h : fault? destination seen list = some error) :
    ∃ front rule back, list = front ++ rule :: back ∧ fault? destination seen front = none ∧
      (((rule.typeName ∈ seen ∨ rule.typeName ∈ front.map Rule.typeName) ∧
          error = .duplicate rule.typeName) ∨
        (rule.typeName ∉ seen ∧ rule.typeName ∉ front.map Rule.typeName ∧
          rule.home = destination ∧ error = .atDestination rule.typeName destination)) := by
  induction list generalizing seen with
  | nil => cases h
  | cons rule rest ih =>
    rw [fault?] at h
    split at h
    case isTrue old =>
      cases h
      exact ⟨[], rule, rest, rfl, rfl, .inl ⟨.inl old, rfl⟩⟩
    case isFalse new =>
      split at h
      case isTrue here =>
        cases h
        exact ⟨[], rule, rest, rfl, rfl, .inr ⟨new, List.not_mem_nil, here, rfl⟩⟩
      case isFalse away =>
        obtain ⟨front, other, back, rfl, faultless, told⟩ := ih h
        refine ⟨rule :: front, other, back, rfl, ?_, ?_⟩
        · rw [fault?, if_neg new, if_neg away]
          exact faultless
        · simp only [List.mem_cons, List.map_cons, not_or] at told ⊢
          grind

lemma refusal_of_fault? (h : fault? destination [] list = some error) :
    Refusal destination list error := by
  obtain ⟨front, rule, back, rfl, faultless, told⟩ := exists_of_fault?_eq_some h
  obtain ⟨nodup, -, away⟩ := fault?_eq_none_iff.1 faultless
  have bound : front.length < (front ++ rule :: back).length := by
    simp
  have least : ∀ j < (⟨front.length, bound⟩ : Fin (front ++ rule :: back).length),
      ¬ Misfit destination (front ++ rule :: back) j :=
    fun j before => not_misfit_append nodup away j before
  have at_i : (front ++ rule :: back)[(⟨front.length, bound⟩ : Fin _)] = rule := by
    simp
  have repeats : Repeats (front ++ rule :: back) ⟨front.length, bound⟩ ↔ _ :=
    repeats_append_iff _ rfl
  rcases told with ⟨old | old, rfl⟩ | ⟨-, fresh, here, rfl⟩
  · cases old
  · have refusal := Refusal.duplicate least (repeats.2 old)
    rwa [at_i] at refusal
  · have refusal := Refusal.atDestination least (mt repeats.1 fresh) (by rw [at_i, here])
    rwa [at_i] at refusal

lemma Misfit.least_unique {i j : Fin list.length} (misfit : Misfit destination list i)
    (misfit' : Misfit destination list j) (least : ∀ k < i, ¬ Misfit destination list k)
    (least' : ∀ k < j, ¬ Misfit destination list k) : i = j := by
  rcases lt_trichotomy i j with before | same | behind
  · exact absurd misfit (least' i before)
  · exact same
  · exact absurd misfit' (least j behind)

/-- Of no list are two things told. -/
lemma Refusal.unique (h : Refusal destination list error)
    (h' : Refusal destination list other) : error = other := by
  cases h with
  | duplicate least repeats =>
    cases h' with
    | duplicate least' repeats' =>
      rw [Misfit.least_unique (.inl repeats) (.inl repeats') least least']
    | atDestination least' fresh here =>
      obtain rfl := Misfit.least_unique (.inl repeats) (.inr here) least least'
      exact absurd repeats fresh
  | atDestination least fresh here =>
    cases h' with
    | duplicate least' repeats =>
      obtain rfl := Misfit.least_unique (.inr here) (.inl repeats) least least'
      exact absurd repeats fresh
    | atDestination least' fresh' here' =>
      rw [Misfit.least_unique (.inr here) (.inr here') least least']

/-- What is told of rules that form a set would be wrong. -/
lemma not_refusal (nodup : (list.map Rule.typeName).Nodup)
    (away : ∀ rule ∈ list, rule.home ≠ destination) : ¬ Refusal destination list error := by
  have fits : ∀ i : Fin list.length, ¬ Misfit destination list i := by
    intro i
    have apart := @not_misfit_append destination list [] nodup away
    rw [List.append_nil] at apart
    exact apart i i.isLt
  intro refusal
  cases refusal with
  | @duplicate i _ repeats => exact fits i (.inl repeats)
  | @atDestination i _ _ here => exact fits i (.inr here)

/-! ### Sets of rules -/

lemma of_ofList_eq_ok (h : ofList destination list = .ok rules) :
    rules.destination = destination ∧ rules.list = list := by
  rw [ofList] at h
  split at h
  case h_1 =>
    cases h
    exact ⟨rfl, rfl⟩
  case h_2 => cases h

/-- The first rule that cannot join those before it is the one that is told. -/
lemma ofList_eq_error_iff :
    ofList destination list = .error error ↔ Refusal destination list error := by
  rw [ofList]
  split
  case h_1 faultless =>
    obtain ⟨nodup, -, away⟩ := fault?_eq_none_iff.1 faultless
    exact ⟨fun h => (by cases h), fun refusal => absurd refusal (not_refusal nodup away)⟩
  case h_2 told =>
    have refusal := refusal_of_fault? told
    constructor
    · rintro ⟨⟩
      exact refusal
    · intro refusal'
      rw [refusal.unique refusal']

/-- A new destination is never refused because of a name. -/
lemma redirect_ne_duplicate (rules : Rules) (destination name : Text) :
    rules.redirect destination ≠ .error (.duplicate name) := by
  intro h
  generalize same : RuleError.duplicate name = error at h
  cases ofList_eq_error_iff.1 h with
  | atDestination => cases same
  | @duplicate i _ repeats =>
    obtain ⟨j, before, equal⟩ := repeats
    exact typeName_ne_of_nodup rules.nodup before i.isLt equal

/-! ### Ways to come by rules -/

/-- The rules were made of a list: the one of the program, one that was given or one that was read,
with any changes of the destination since. -/
inductive Obtained : List Rule → Rules → Prop
  | standard : Obtained Rules.standard.list Rules.standard
  | given {destination : Text} {list : List Rule} {rules : Rules}
      (formed : ofList destination list = .ok rules) : Obtained list rules
  | read {path : Path} {text : Text} {document : Document} {rules : Rules}
      (spelled : Document.ofText text = .ok document) (formed : ofJson path text = .ok rules) :
    Obtained document.list rules
  | redirected {list : List Rule} {rules new : Rules} {destination : Text}
      (before : Obtained list rules) (turned : rules.redirect destination = .ok new) :
    Obtained list new

lemma ofList_of_ofJson {path : Path} {text : Text} {document : Document}
    (spelled : Document.ofText text = .ok document) (formed : ofJson path text = .ok rules) :
    ofList document.destination document.list = .ok rules := by
  rw [ofJson, spelled] at formed
  dsimp only [Document.rules] at formed
  cases made : ofList document.destination document.list with
  | error error =>
    rw [made] at formed
    cases formed
  | ok rules' =>
    rw [made] at formed
    cases formed
    rfl

/-- No rule is lost or moved on the way. -/
lemma Obtained.list_eq (h : Obtained list rules) : rules.list = list := by
  induction h with
  | standard => rfl
  | given formed => exact (of_ofList_eq_ok formed).2
  | read spelled formed => exact (of_ofList_eq_ok (ofList_of_ofJson spelled formed)).2
  | redirected _ turned ih => exact (of_ofList_eq_ok turned).2.trans ih

lemma exists_obtained_of_load {tree : Tree} {path : Path} (h : load tree path = .ok rules) :
    ∃ list, Obtained list rules := by
  rw [load] at h
  split at h
  case h_1 => cases h
  case h_2 =>
    split at h
    case h_1 => cases h
    case h_2 text _ =>
      cases spelled : Document.ofText text with
      | error problem =>
        rw [ofJson, spelled] at h
        cases h
      | ok document => exact ⟨_, .read spelled h⟩

lemma Obtained.turn {turn : Option Text} (h : Obtained list rules)
    (turned : (match turn with
      | none => Except.ok rules
      | some destination => (rules.redirect destination).mapError Fault.rules) = .ok new) :
    Obtained list new := by
  cases turn with
  | none =>
    cases turned
    exact h
  | some destination =>
    dsimp only at turned
    cases answer : rules.redirect destination with
    | error error =>
      rw [answer] at turned
      cases turned
    | ok new =>
      rw [answer] at turned
      cases turned
      exact .redirected h answer

/-- The rules of a command line are come by in one of these ways. -/
theorem exists_obtained_of_arguments {arguments : Arguments} {tree : Tree}
    (h : arguments.rules tree = .ok rules) : ∃ list, Obtained list rules := by
  rw [Arguments.rules] at h
  cases chosen : arguments.map with
  | none =>
    rw [chosen] at h
    exact ⟨_, Obtained.standard.turn h⟩
  | some path =>
    rw [chosen] at h
    dsimp only at h
    cases loaded : load tree (Path.ofText path) with
    | error fault =>
      rw [loaded] at h
      cases h
    | ok start =>
      rw [loaded] at h
      obtain ⟨list, obtained⟩ := exists_obtained_of_load loaded
      exact ⟨list, obtained.turn h⟩

/-- Rules form a set exactly if no name is repeated and no home is the destination. Else the first
misfit is told. Rules that were come by in any way keep to both conditions, hold what they were made
of, and go to a new destination as if they had never had another. -/
theorem ofList_exact (destination : Text) (list : List Rule) :
    ((ofList destination list).isOk ↔
        (list.map Rule.typeName).Nodup ∧ ∀ rule ∈ list, rule.home ≠ destination) ∧
      (∀ rules, ofList destination list = .ok rules →
        rules.destination = destination ∧ rules.list = list) ∧
      (∀ error, ofList destination list = .error error ↔ Refusal destination list error) ∧
      ∀ rules, Obtained list rules →
        rules.list = list ∧ (list.map Rule.typeName).Nodup ∧
          (∀ rule ∈ list, rule.home ≠ rules.destination) ∧
          ∀ first mid second, rules.redirect first = .ok mid →
            mid.redirect second = rules.redirect second ∧
              ∀ name, mid.redirect second ≠ .error (.duplicate name) := by
  refine ⟨ofList_isOk_iff, fun _ => of_ofList_eq_ok, fun _ => ofList_eq_error_iff, ?_⟩
  rintro rules obtained
  have same := obtained.list_eq
  refine ⟨same, same ▸ rules.nodup, same ▸ rules.away, fun first mid second turned => ⟨?_, ?_⟩⟩
  · rw [redirect, redirect, (of_ofList_eq_ok turned).2]
  · exact fun name => mid.redirect_ne_duplicate second name

/-- Of three rules the second repeats the name of the first. The first alone can be sent elsewhere,
and from there on as before, but not to its home. -/
theorem ofList_exact_three :
    let rule : Rule := ⟨"A".toList, "a".toList⟩
    let list := [rule, ⟨"A".toList, "t".toList⟩, ⟨"B".toList, "t".toList⟩]
    let rules : Rules := ⟨"u".toList, [rule], by decide, by decide⟩
    let mid : Rules := ⟨"v".toList, [rule], by decide, by decide⟩
    Refusal "t".toList list (.duplicate "A".toList) ∧
      ofList "t".toList list = .error (.duplicate "A".toList) ∧
      Obtained [rule] rules ∧ rules.redirect "v".toList = .ok mid ∧
      mid.redirect "a".toList = rules.redirect "a".toList ∧
      rules.redirect "a".toList = .error (.atDestination "A".toList "a".toList) := by
  intro rule list rules mid
  have least : ∀ j < (1 : Fin list.length), ¬ Misfit "t".toList list j := by decide
  have refusal : Refusal "t".toList list (.duplicate "A".toList) := .duplicate least (by decide)
  have formed : ofList "u".toList [rule] = .ok rules := rfl
  have obtained : Obtained [rule] rules := .given formed
  have turned : rules.redirect "v".toList = .ok mid := rfl
  obtain ⟨-, -, -, onwards⟩ := (ofList_exact "u".toList [rule]).2.2.2 rules obtained
  exact ⟨refusal, ((ofList_exact _ list).2.2.1 _).2 refusal, obtained, turned,
    (onwards _ mid _ turned).1, rfl⟩

end Rules

end Rehome
