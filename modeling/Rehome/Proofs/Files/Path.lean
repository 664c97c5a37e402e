import Mathlib.Tactic.Lemma
import Rehome.Files.Path

/-!
# Paths to what lies below

Names set behind a path are further steps of it. Main statement: `steps_below`.
-/

namespace Rehome

namespace Path

variable {separator : UInt8} {name : Bytes} {names : List Bytes} {path : Path}

/-! ### Parts between separators -/

lemma splitOn_of_notMem {part : Bytes} (h : separator ∉ part) :
    splitOn separator part = [part] := by
  induction part with
  | nil => rfl
  | cons b part ih =>
    rw [List.mem_cons, not_or] at h
    rw [splitOn, if_neg (Ne.symm h.1), ih h.2]

lemma splitOn_ne_nil (separator : UInt8) (bytes : Bytes) : splitOn separator bytes ≠ [] := by
  cases bytes with
  | nil => exact nofun
  | cons b rest =>
    rw [splitOn]
    split
    · exact nofun
    · split <;> exact nofun

lemma splitOn_append (separator : UInt8) (front back : Bytes) :
    splitOn separator (front ++ separator :: back) =
      splitOn separator front ++ splitOn separator back := by
  induction front with
  | nil => simp [splitOn]
  | cons b front ih =>
    rw [List.cons_append, splitOn, splitOn]
    by_cases here : b = separator
    · rw [if_pos here, if_pos here, ih, List.cons_append]
    · rw [if_neg here, if_neg here, ih]
      cases parts : splitOn separator front with
      | nil => exact absurd parts (splitOn_ne_nil separator front)
      | cons part more => rfl

/-! ### Steps -/

lemma steps_append_slash (front back : Path) :
    steps (front ++ slash :: back) = steps front ++ steps back := by
  rw [steps, splitOn_append, List.filterMap_append, steps, steps]

lemma steps_name (proper : IsName name) : steps name = [.name name] := by
  obtain ⟨solid, noSlash, -, -⟩ := proper
  simp only [List.mem_cons, List.not_mem_nil, or_false, not_or] at solid
  rw [steps, splitOn_of_notMem noSlash, List.filterMap_cons, stepOf?, if_neg solid.1,
    if_neg solid.2.1, if_neg solid.2.2]
  rfl

lemma flatten_intersperse_cons (name next : Bytes) (names : List Bytes) :
    ((name :: next :: names).intersperse [slash]).flatten =
      name ++ slash :: ((next :: names).intersperse [slash]).flatten := by
  simp [List.intersperse]

lemma steps_intersperse (proper : ∀ name ∈ names, IsName name) :
    steps (names.intersperse [slash]).flatten = names.map .name := by
  induction names with
  | nil => rfl
  | cons name names ih =>
    rw [List.forall_mem_cons] at proper
    cases names with
    | nil => simpa using steps_name proper.1
    | cons next names =>
      rw [flatten_intersperse_cons, steps_append_slash, steps_name proper.1, ih proper.2]
      rfl

lemma steps_below (path : Path) (proper : ∀ name ∈ names, IsName name) :
    (below path names).steps = path.steps ++ names.map .name := by
  rw [below]
  split
  case isTrue none => rw [none, List.map_nil, List.append_nil]
  split
  case isFalse => rw [steps_append_slash, steps_intersperse proper]
  case isTrue slashed =>
    obtain ⟨front, rfl⟩ := List.getLast?_eq_some_iff.1 (of_decide_eq_true slashed)
    have plain := steps_append_slash front []
    rw [List.append_assoc, List.singleton_append, steps_append_slash, steps_intersperse proper,
      plain]
    simp [steps, splitOn, stepOf?]

/-! ### Ends -/

lemma below_ne_nil (solid : path ≠ []) (names : List Bytes) : below path names ≠ [] := by
  rw [below]
  split
  · exact solid
  split
  · exact List.append_ne_nil_of_left_ne_nil solid _
  · exact List.append_ne_nil_of_left_ne_nil solid _

lemma isAbsolute_below (solid : path ≠ []) (names : List Bytes) :
    (below path names).isAbsolute = path.isAbsolute := by
  obtain ⟨b, path, rfl⟩ := List.exists_cons_of_ne_nil solid
  rw [below]
  split
  · rfl
  split
  · rfl
  · rfl

lemma endsInSlash_append (front : Bytes) {back : Bytes} (solid : back ≠ []) :
    endsInSlash (front ++ back) = endsInSlash back := by
  rw [endsInSlash, endsInSlash, List.getLast?_append, List.getLast?_eq_some_getLast solid]
  rfl

lemma endsInSlash_intersperse (solid : names ≠ []) (proper : ∀ name ∈ names, IsName name) :
    (names.intersperse [slash]).flatten ≠ [] ∧
      endsInSlash (names.intersperse [slash]).flatten = false := by
  induction names with
  | nil => exact absurd rfl solid
  | cons name names ih =>
    rw [List.forall_mem_cons] at proper
    cases names with
    | nil =>
      obtain ⟨⟨some, noSlash, -, -⟩, -⟩ := proper
      rw [List.mem_cons, not_or] at some
      refine ⟨by simpa using some.1, ?_⟩
      rw [endsInSlash, decide_eq_false_iff_not]
      intro last
      exact noSlash (List.mem_of_getLast? (by simpa using last))
    | cons next names =>
      obtain ⟨some, plain⟩ := ih nofun proper.2
      rw [flatten_intersperse_cons]
      refine ⟨by simp, ?_⟩
      rw [List.append_cons, endsInSlash_append _ some, plain]

/-- A path to something below a directory does not say that it means a directory. -/
lemma endsInSlash_below (path : Path) (solid : names ≠ []) (proper : ∀ name ∈ names, IsName name) :
    (below path names).endsInSlash = false := by
  obtain ⟨some, plain⟩ := endsInSlash_intersperse solid proper
  rw [below, if_neg solid]
  split
  · rw [endsInSlash_append path some, plain]
  · rw [List.append_cons, endsInSlash_append _ some, plain]

lemma nul_notMem_intersperse (proper : ∀ name ∈ names, IsName name) :
    0 ∉ (names.intersperse [slash]).flatten := by
  induction names with
  | nil => exact List.not_mem_nil
  | cons name names ih =>
    rw [List.forall_mem_cons] at proper
    obtain ⟨⟨-, -, clean, -⟩, others⟩ := proper
    cases names with
    | nil => simpa using clean
    | cons next names =>
      rw [flatten_intersperse_cons, List.mem_append, List.mem_cons, not_or, not_or]
      exact ⟨clean, by decide, ih others⟩

lemma nul_notMem_below (clean : 0 ∉ path) (proper : ∀ name ∈ names, IsName name) :
    0 ∉ below path names := by
  have inner := nul_notMem_intersperse proper
  rw [below]
  split
  · exact clean
  split
  · rw [List.mem_append, not_or]
    exact ⟨clean, inner⟩
  · rw [List.mem_append, List.mem_cons, not_or, not_or]
    exact ⟨clean, by decide, inner⟩

end Path

end Rehome
