import Mathlib.Data.List.Induction
import Mathlib.Tactic.Lemma
import Rehome.Rewrite

/-!
# Steps of a pass

What one rule can do to a text: nothing, or a clash and nothing, or a move in two edits. Main
statements: what the steps of a pass keep, the pass keeps (`Rules.rewrite_induction`), and so does
it what the moves keep (`Rules.moves_induction`); a pass is idle exactly if no rule is ready on its
text (`Rules.rewrite_idle_iff`).
-/

namespace Rehome

/-- The text that is left when the rule's type has been taken out of the first import of its
home. -/
def Rule.left (rule : Rule) (text : Text) : Text :=
  match text.importOf? rule.home with
  | some statement => text.withdraw statement rule.typeName
  | none => text

lemma Rule.left_of_some {rule : Rule} {text : Text} {statement : Statement}
    (first : text.importOf? rule.home = some statement) :
    rule.left text = text.withdraw statement rule.typeName := by
  rw [left, first]

lemma Rule.left_of_none {rule : Rule} {text : Text} (none : text.importOf? rule.home = none) :
    rule.left text = text := by
  rw [left, none]

/-- What a rule does to a text: nothing, or a clash and nothing, or a move. -/
lemma Rule.apply_cases (rule : Rule) (destination text : Text) :
    (rule.apply destination text = ⟨text, .untouched⟩ ∧
        ∀ statement, text.importOf? rule.home = some statement →
          rule.typeName ∉ statement.names) ∨
      ∃ statement, text.importOf? rule.home = some statement ∧ rule.typeName ∈ statement.names ∧
        ((∃ other, rule.rival? destination text = some other ∧
            rule.apply destination text = ⟨text, .clash other⟩) ∨
          rule.rival? destination text = none ∧
            rule.apply destination text =
              ⟨(rule.left text).enlist rule.typeName destination, .moved⟩) := by
  rw [apply, left]
  cases first : text.importOf? rule.home with
  | none => exact .inl ⟨rfl, nofun⟩
  | some statement =>
    by_cases listed : rule.typeName ∈ statement.names
    · refine .inr ⟨statement, rfl, listed, ?_⟩
      cases rival : rule.rival? destination text with
      | none => exact .inr ⟨rfl, if_neg (not_not_intro listed)⟩
      | some other => exact .inl ⟨other, rfl, if_neg (not_not_intro listed)⟩
    · refine .inl ⟨if_pos listed, ?_⟩
      rintro _ ⟨⟩
      exact listed

lemma Rule.exists_of_apply_moved {rule : Rule} {destination text : Text}
    (moved : (rule.apply destination text).effect = .moved) :
    ∃ statement, text.importOf? rule.home = some statement ∧ rule.typeName ∈ statement.names ∧
      rule.apply destination text =
        ⟨(rule.left text).enlist rule.typeName destination, .moved⟩ := by
  rcases rule.apply_cases destination text with
    ⟨eq, -⟩ | ⟨statement, first, listed, ⟨other, -, eq⟩ | ⟨-, eq⟩⟩
  · rw [eq] at moved
    cases moved
  · rw [eq] at moved
    cases moved
  · exact ⟨statement, first, listed, eq⟩

/-- The first import of the rule's home lists its type, and no third module provides it. -/
def Rule.Ready (rule : Rule) (destination text : Text) : Prop :=
  ∃ statement, text.importOf? rule.home = some statement ∧ rule.typeName ∈ statement.names ∧
    rule.rival? destination text = none

namespace Pass

lemma step_cases (destination : Text) (pass : Pass) (rule : Rule) :
    (step destination pass rule = pass ∧
        ∀ statement, pass.text.importOf? rule.home = some statement →
          rule.typeName ∉ statement.names) ∨
      ∃ statement, pass.text.importOf? rule.home = some statement ∧
        rule.typeName ∈ statement.names ∧
        ((∃ other, rule.rival? destination pass.text = some other ∧
            step destination pass rule = ⟨pass.text, pass.moved,
              pass.clashes ++ [⟨rule.typeName, rule.home, other⟩]⟩) ∨
          rule.rival? destination pass.text = none ∧
            step destination pass rule =
              ⟨(rule.left pass.text).enlist rule.typeName destination, pass.moved ++ [rule],
                pass.clashes⟩) := by
  rw [step]
  rcases rule.apply_cases destination pass.text with
    ⟨eq, free⟩ | ⟨statement, first, listed, ⟨other, rival, eq⟩ | ⟨none, eq⟩⟩
  · rw [eq]
    exact .inl ⟨rfl, free⟩
  · rw [eq]
    exact .inr ⟨statement, first, listed, .inl ⟨other, rival, rfl⟩⟩
  · rw [eq]
    exact .inr ⟨statement, first, listed, .inr ⟨none, rfl⟩⟩

end Pass

namespace Rules

/-- The modules that types are taken from. -/
def homes (rules : Rules) : List Text :=
  rules.list.map Rule.home

lemma destination_notMem_homes (rules : Rules) : rules.destination ∉ rules.homes := by
  rw [homes, List.mem_map]
  rintro ⟨rule, mem, eq⟩
  exact rules.away rule mem eq

/-- Induction over the first rules of a pass: what a rule keeps, given the rules that were tried
before it. -/
lemma foldl_induction {rules : Rules} {text : Text} {motive : List Rule → Pass → Prop}
    (start : motive [] ⟨text, [], []⟩)
    (step : ∀ done pass rule rest, done ++ rule :: rest = rules.list → motive done pass →
      motive (done ++ [rule]) (Pass.step rules.destination pass rule))
    {done rest : List Rule} (all : done ++ rest = rules.list) :
    motive done (done.foldl (Pass.step rules.destination) ⟨text, [], []⟩) := by
  induction done using List.reverseRecOn generalizing rest with
  | nil => exact start
  | append_singleton done rule ih =>
    rw [List.append_assoc, List.singleton_append] at all
    rw [List.foldl_append]
    exact step done _ rule rest all (ih all)

/-- Induction over a pass. -/
@[elab_as_elim]
lemma rewrite_induction {rules : Rules} {text : Text} {motive : List Rule → Pass → Prop}
    (start : motive [] ⟨text, [], []⟩)
    (step : ∀ done pass rule rest, done ++ rule :: rest = rules.list → motive done pass →
      motive (done ++ [rule]) (Pass.step rules.destination pass rule)) :
    motive rules.list (rules.rewrite text) :=
  foldl_induction start step (List.append_nil _)

end Rules

/-! ### Idle passes -/

namespace Pass

variable {destination : Text} {pass : Pass} {rule : Rule} {rules : List Rule}

lemma step_of_ready (h : rule.Ready destination pass.text) :
    step destination pass rule =
      ⟨(rule.left pass.text).enlist rule.typeName destination, pass.moved ++ [rule],
        pass.clashes⟩ := by
  obtain ⟨statement, first, own, none⟩ := h
  rcases step_cases destination pass rule with
    ⟨-, free⟩ | ⟨_, -, -, ⟨other, rival, -⟩ | ⟨-, eq⟩⟩
  · exact absurd own (free statement first)
  · cases none.symm.trans rival
  · exact eq

lemma step_of_not_ready (h : ¬ rule.Ready destination pass.text) :
    (step destination pass rule).text = pass.text ∧
      (step destination pass rule).moved = pass.moved := by
  rcases step_cases destination pass rule with
    ⟨eq, -⟩ | ⟨statement, first, own, ⟨other, -, eq⟩ | ⟨none, -⟩⟩
  · rw [eq]
    exact ⟨rfl, rfl⟩
  · rw [eq]
    exact ⟨rfl, rfl⟩
  · exact absurd ⟨statement, first, own, none⟩ h

lemma moved_prefix_foldl : pass.moved <+: (rules.foldl (step destination) pass).moved := by
  induction rules generalizing pass with
  | nil => exact List.prefix_rfl
  | cons rule rules ih =>
    refine List.IsPrefix.trans ?_ ih
    by_cases ready : rule.Ready destination pass.text
    · rw [step_of_ready ready]
      exact List.prefix_append _ _
    · exact ⟨[], by rw [List.append_nil, (step_of_not_ready ready).2]⟩

/-- Rules leave a text alone exactly if none of them is ready on it. -/
lemma foldl_idle_iff : (rules.foldl (step destination) pass).moved = pass.moved ∧
    (rules.foldl (step destination) pass).text = pass.text ↔
      ∀ rule ∈ rules, ¬ rule.Ready destination pass.text := by
  induction rules generalizing pass with
  | nil => simp
  | cons rule rules ih =>
    rw [List.foldl_cons, List.forall_mem_cons]
    by_cases ready : rule.Ready destination pass.text
    -- rules never undo a move, so that the first one shows at the end
    · have grown := @moved_prefix_foldl destination (step destination pass rule) rules
      have long := grown.length_le
      refine iff_of_false (fun idle => ?_) fun none => none.1 ready
      rw [idle.1, step_of_ready ready, List.length_append, List.length_singleton] at long
      omega
    · obtain ⟨text, moved⟩ := step_of_not_ready ready
      rw [← text, ← moved, ih]
      exact (and_iff_right (text ▸ ready)).symm

end Pass

namespace Rules

variable {rules : Rules} {text : Text}

/-- Induction over the moves that the first rules of a pass make: only a rule that is ready changes
the text or the list of those that moved. -/
lemma moves_induction {motive : Text → List Rule → Prop} (start : motive text [])
    (move : ∀ rule ∈ rules.list, ∀ text moved, rule.Ready rules.destination text →
      motive text moved →
        motive ((rule.left text).enlist rule.typeName rules.destination) (moved ++ [rule]))
    {done rest : List Rule} (all : done ++ rest = rules.list) :
    motive (done.foldl (Pass.step rules.destination) ⟨text, [], []⟩).text
      (done.foldl (Pass.step rules.destination) ⟨text, [], []⟩).moved := by
  refine foldl_induction (motive := fun _ pass => motive pass.text pass.moved) start ?_ all
  intro done pass rule rest all h
  by_cases ready : rule.Ready rules.destination pass.text
  · rw [Pass.step_of_ready ready]
    exact move rule (by simp [← all]) _ _ ready h
  · obtain ⟨text, moved⟩ := Pass.step_of_not_ready ready
    rw [text, moved]
    exact h

/-- Each rule moves its type once at most, in the order of the rules. -/
lemma moved_sublist (rules : Rules) (text : Text) :
    (rules.rewrite text).moved.Sublist rules.list := by
  refine rewrite_induction (motive := fun done pass => pass.moved.Sublist done) (.refl _) ?_
  intro done pass rule rest _ h
  by_cases ready : rule.Ready rules.destination pass.text
  · rw [Pass.step_of_ready ready]
    exact h.append (List.Sublist.refl _)
  · rw [(Pass.step_of_not_ready ready).2]
    exact h.trans (List.sublist_append_left _ _)

lemma nodup_movedNames (rules : Rules) (text : Text) : (rules.rewrite text).movedNames.Nodup :=
  rules.nodup.sublist ((rules.moved_sublist text).map Rule.typeName)

/-- A pass that moves nothing leaves the text as it is. -/
lemma text_rewrite_of_moved_eq_nil (none : (rules.rewrite text).moved = []) :
    (rules.rewrite text).text = text := by
  refine moves_induction (motive := fun new moved => moved = [] → new = text) (fun _ => rfl) ?_
    (List.append_nil _) none
  intro rule mem new moved ready idle none
  exact absurd none (by simp)

lemma rewrite_idle_iff :
    (rules.rewrite text).moved = [] ∧ (rules.rewrite text).text = text ↔
      ∀ rule ∈ rules.list, ¬ rule.Ready rules.destination text :=
  @Pass.foldl_idle_iff rules.destination ⟨text, [], []⟩ rules.list

end Rules

end Rehome
