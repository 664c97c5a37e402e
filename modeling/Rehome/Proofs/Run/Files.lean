import Rehome.Proofs.Run.Visit

/-!
# Visits in a row

Files that are visited one after another, each of them once. No visit bears on what is read or
written in a later one. Main statements: what has become of the tree and of the account when all
visits have ended well (`Job.done_files`), and that they all do if each of them would in the first
tree (`Job.exists_files_eq_ok`).
-/

namespace Rehome

/-! ### Paths that lead to different files -/

namespace Tree

/-- The paths lead to files, and no two of them to the same one. -/
structure Apart (tree : Tree) (paths : List Path) : Prop where
  leads : ∀ path ∈ paths, ∃ location, tree.LeadsTo path location
  nodup : (paths.filterMap tree.locate?).Nodup

/-- The trees are alike and hold the same where the paths lead. -/
structure Agree (paths : List Path) (a b : Tree) : Prop where
  alike : Alike a b
  held : ∀ location ∈ paths.filterMap a.locate?, a.node? location = b.node? location

variable {a b tree : Tree} {path : Path} {location : Location} {paths front back : List Path}

lemma LeadsTo.mem (h : tree.LeadsTo path location) (mem : path ∈ paths) :
    location ∈ paths.filterMap tree.locate? :=
  List.mem_filterMap.2 ⟨path, mem, h.located⟩

lemma filterMap_locate?_cons (h : tree.LeadsTo path location) (paths : List Path) :
    (path :: paths).filterMap tree.locate? = location :: paths.filterMap tree.locate? :=
  List.filterMap_cons_some h.located

lemma Alike.filterMap_eq (h : Alike a b) (paths : List Path) :
    paths.filterMap a.locate? = paths.filterMap b.locate? :=
  List.filterMap_congr fun path _ => h.locate?_eq path

lemma Apart.alike (h : a.Apart paths) (alike : Alike a b) : b.Apart paths where
  leads path mem := (h.leads path mem).imp fun _ leads => leads.alike alike
  nodup := alike.filterMap_eq paths ▸ h.nodup

lemma Apart.tail (h : tree.Apart (path :: paths)) : tree.Apart paths where
  leads other mem := h.leads other (List.mem_cons_of_mem _ mem)
  nodup := h.nodup.sublist ((List.sublist_cons_self path paths).filterMap _)

lemma Apart.left (h : tree.Apart (front ++ back)) : tree.Apart front where
  leads path mem := h.leads path (List.mem_append_left _ mem)
  nodup := h.nodup.sublist ((List.sublist_append_left front back).filterMap _)

/-- Where the later paths lead no earlier one does. -/
lemma Apart.disjoint (h : tree.Apart (front ++ back))
    (mem : location ∈ back.filterMap tree.locate?) : location ∉ front.filterMap tree.locate? := by
  have nodup := h.nodup
  rw [List.filterMap_append] at nodup
  exact fun early => List.disjoint_of_nodup_append nodup early mem

lemma Apart.fresh (h : tree.Apart (path :: paths)) (leads : tree.LeadsTo path location) :
    location ∉ paths.filterMap tree.locate? := by
  have nodup := h.nodup
  rw [filterMap_locate?_cons leads] at nodup
  exact (List.nodup_cons.1 nodup).1

lemma apart_of_walk {root : Path} (h : tree.walk root = .files paths) : tree.Apart paths where
  leads _ mem := exists_leadsTo_of_mem_walk h mem
  nodup := nodup_walk h

lemma Agree.symm (h : Agree paths a b) : Agree paths b a where
  alike := h.alike.symm
  held location mem := (h.held location (h.alike.filterMap_eq paths ▸ mem)).symm

lemma LeadsTo.agree_insert (h : a.LeadsTo path location)
    (fresh : location ∉ paths.filterMap a.locate?) (content : Bytes) (access : Access) :
    Agree paths a (a.insert location (.file content access)) := by
  refine ⟨h.alike_insert content access, fun other mem => ?_⟩
  rw [h.node?_insert, if_neg]
  rintro rfl
  exact fresh mem

lemma Agree.readText_eq (h : Agree paths a b) (leads : a.LeadsTo path location)
    (mem : path ∈ paths) : a.readText path = b.readText path :=
  leads.readText_congr h.alike (h.held location (leads.mem mem))

end Tree

/-! ### Steps up to the first fault -/

namespace Run

variable {α : Type} {step : Path → Run → Run × Except Fault α} {run mid final : Run}
  {paths front : List Path} {fault : Fault}

lemma each_append_of_ok (h : run.each step front = (mid, .ok ())) (back : List Path) :
    run.each step (front ++ back) = mid.each step back := by
  induction front generalizing run with
  | nil =>
    cases h
    rfl
  | cons path front ih =>
    rw [List.cons_append, each]
    rw [each] at h
    split at h
    case h_1 => cases h
    case h_2 => exact ih h

/-- Steps that stop have stopped at the first one that fails. -/
lemma exists_of_each_eq_error (h : run.each step paths = (final, .error fault)) :
    ∃ front path back mid, paths = front ++ path :: back ∧
      run.each step front = (mid, .ok ()) ∧ step path mid = (final, .error fault) := by
  induction paths generalizing run with
  | nil => cases h
  | cons path paths ih =>
    rw [each] at h
    split at h
    case h_1 failed =>
      cases h
      exact ⟨[], path, paths, run, rfl, rfl, failed⟩
    case h_2 taken =>
      obtain ⟨front, other, back, mid, rfl, before, failed⟩ := ih h
      refine ⟨path :: front, other, back, mid, rfl, ?_, failed⟩
      rw [each, taken]
      exact before

lemma each_append_of_error (h : run.each step front = (final, .error fault)) (back : List Path) :
    run.each step (front ++ back) = (final, .error fault) := by
  obtain ⟨front, path, behind, mid, rfl, before, failed⟩ := exists_of_each_eq_error h
  rw [List.append_assoc, each_append_of_ok before, List.cons_append, each, failed]

end Run

namespace Rules

open Rehome.Tree

variable {rules : Rules} {a b : Tree} {paths : List Path}

lemma pass?_eq_of_agree (h : Agree paths a b) (apart : a.Apart paths) {path : Path}
    (mem : path ∈ paths) : rules.pass? a path = rules.pass? b path := by
  obtain ⟨location, leads⟩ := apart.leads path mem
  rw [pass?, pass?, h.readText_eq leads mem]

lemma flatMap_changesAt_eq (h : Agree paths a b) (apart : a.Apart paths) :
    paths.flatMap (rules.changesAt a) = paths.flatMap (rules.changesAt b) := by
  apply List.flatMap_congr
  intro path mem
  rw [changesAt, changesAt, pass?_eq_of_agree h apart mem]

lemma flatMap_clashesAt_eq (h : Agree paths a b) (apart : a.Apart paths) :
    paths.flatMap (rules.clashesAt a) = paths.flatMap (rules.clashesAt b) := by
  apply List.flatMap_congr
  intro path mem
  rw [clashesAt, clashesAt, pass?_eq_of_agree h apart mem]

end Rules

namespace Job

open Rehome.Tree

variable {job : Job} {path : Path} {location : Location} {paths front back : List Path}
  {run mid final : Run} {a b : Tree} {moved : Bool} {fault : Fault}

lemma Clears.of_agree (h : job.Clears a path) (agree : Agree paths a b) (apart : a.Apart paths)
    (mem : path ∈ paths) : job.Clears b path := by
  obtain ⟨location, leads⟩ := apart.leads path mem
  obtain ⟨content, access, held⟩ := leads.file
  have held' := (agree.held location (leads.mem mem)).symm.trans held
  rw [clears_iff (leads.alike agree.alike) held', ← agree.alike.admits_iff]
  exact (clears_iff leads held).1 h

/-! ### Visits of a list of files -/

/-- Induction over visits: what each of them keeps, however it ends. -/
lemma files_induction {motive : Run → Prop} (start : motive run)
    (step : ∀ path ∈ paths, ∀ before after result, Visit job path before (after, result) →
      motive before → motive after) : motive (job.files run paths).1 := by
  induction paths generalizing run with
  | nil => exact start
  | cons path paths ih =>
    rw [List.forall_mem_cons] at step
    have visit := job.visit_file path run
    rw [files, Run.each]
    split
    case h_1 after fault visited => exact step.1 run after _ (visited ▸ visit) start
    case h_2 after moved visited => exact ih (step.1 run after _ (visited ▸ visit) start) step.2

/-- Visits touch only the files that they are made to. -/
lemma alike_files (leads : ∀ path ∈ paths, ∃ location, run.tree.LeadsTo path location) :
    Alike run.tree (job.files run paths).1.tree ∧
      ∀ other ∉ paths.filterMap run.tree.locate?,
        (job.files run paths).1.tree.node? other = run.tree.node? other := by
  refine files_induction (motive := fun after => Alike run.tree after.tree ∧
    ∀ other ∉ paths.filterMap run.tree.locate?, after.tree.node? other = run.tree.node? other)
    ⟨.refl _, fun _ _ => rfl⟩ ?_
  rintro path mem before after result visit ⟨alike, same⟩
  obtain ⟨location, leads⟩ := leads path mem
  have leads' := leads.alike alike
  refine ⟨alike.trans (visit.alike leads'), fun other untouched => ?_⟩
  rw [← same other untouched]
  apply visit.node?_of_ne leads'
  rintro rfl
  exact untouched (leads.mem mem)

/-- Visits that start in the same tree go the same way. -/
lemma parallel_files {a b : Run} (same : a.tree = b.tree) :
    Parallel a b (job.files a paths) (job.files b paths) := by
  induction paths generalizing a b with
  | nil => exact ⟨same, rfl, id⟩
  | cons path paths ih =>
    have first := job.parallel_file path same
    rw [files, files, Run.each, Run.each]
    generalize job.file path a = reached, job.file path b = reached' at first ⊢
    obtain ⟨a', answer⟩ := reached
    obtain ⟨b', answer'⟩ := reached'
    obtain rfl : answer = answer' := first.answer
    cases answer with
    | error fault => exact ⟨first.tree, rfl, first.summary⟩
    | ok moved =>
      have rest := ih first.tree
      exact ⟨rest.tree, rest.answer, rest.summary ∘ first.summary⟩

/-- The run has visited the files, and each visit has ended well. -/
structure Done (job : Job) (start : Run) (paths : List Path) (run : Run) : Prop where
  clears : ∀ path ∈ paths, job.Clears start.tree path
  workingDirectory_eq : run.tree.workingDirectory = start.tree.workingDirectory
  node?_eq : ∀ location, run.tree.node? location =
    if location ∈ paths.filterMap start.tree.locate? then
      (start.tree.node? location).map job.revise
    else start.tree.node? location
  summary_eq : run.summary = start.summary.record paths.length
    (paths.flatMap (job.rules.changesAt start.tree))
    (paths.flatMap (job.rules.clashesAt start.tree))

/-- A visit leaves all that is visited later. -/
lemma Visit.agree (apart : run.tree.Apart (path :: paths))
    (h : Visit job path run (mid, .ok moved)) : Agree paths run.tree mid.tree := by
  obtain ⟨location, leads⟩ := apart.leads path List.mem_cons_self
  refine ⟨h.alike leads, fun other mem => ?_⟩
  symm
  apply h.node?_of_ne leads
  rintro rfl
  exact apart.fresh leads mem

lemma Done.nil (run : Run) : Done job run [] run where
  clears := List.forall_mem_nil _
  workingDirectory_eq := rfl
  node?_eq _ := rfl
  summary_eq := (run.summary.record_nil).symm

lemma Done.cons (apart : run.tree.Apart (path :: paths))
    (first : Visit job path run (mid, .ok moved)) (rest : Done job mid paths final) :
    Done job run (path :: paths) final := by
  have agree := first.agree apart
  obtain ⟨location, leads⟩ := apart.leads path List.mem_cons_self
  refine ⟨?_, rest.workingDirectory_eq.trans (first.workingDirectory_eq leads), fun other => ?_,
    ?_⟩
  · rw [List.forall_mem_cons]
    refine ⟨first.clears, fun other mem => ?_⟩
    exact (rest.clears other mem).of_agree agree.symm (apart.tail.alike agree.alike) mem
  · rw [filterMap_locate?_cons leads, rest.node?_eq, first.node?_eq leads,
      ← agree.alike.filterMap_eq]
    by_cases here : other = location
    · subst here
      rw [if_neg (apart.fresh leads), if_pos rfl, if_pos List.mem_cons_self]
    · simp [here]
  · rw [rest.summary_eq, first.summary_eq, Summary.record_record, List.length_cons, Nat.add_comm 1,
      List.flatMap_cons, List.flatMap_cons, Rules.flatMap_changesAt_eq agree apart.tail,
      Rules.flatMap_clashesAt_eq agree apart.tail]

/-- Visits that have all ended well have revised each file as it was at first. -/
theorem done_files (apart : run.tree.Apart paths) (h : job.files run paths = (final, .ok ())) :
    Done job run paths final := by
  induction paths generalizing run with
  | nil =>
    cases h
    exact .nil _
  | cons path paths ih =>
    rw [files, Run.each] at h
    split at h
    case h_1 => cases h
    case h_2 mid moved visited =>
      have visit := job.visit_file path run
      rw [visited] at visit
      exact .cons apart visit (ih (apart.tail.alike (visit.agree apart).alike) h)

/-- Visits end well if each of them would in the first tree. -/
theorem exists_files_eq_ok (apart : run.tree.Apart paths)
    (clears : ∀ path ∈ paths, job.Clears run.tree path) :
    ∃ final, job.files run paths = (final, .ok ()) := by
  induction paths generalizing run with
  | nil => exact ⟨run, rfl⟩
  | cons path paths ih =>
    rw [List.forall_mem_cons] at clears
    obtain ⟨mid, moved, visited⟩ := exists_of_clears clears.1
    have visit := job.visit_file path run
    rw [visited] at visit
    have agree := visit.agree apart
    rw [files, Run.each, visited]
    apply ih (apart.tail.alike agree.alike)
    exact fun other mem => (clears.2 other mem).of_agree agree apart.tail mem

lemma Done.alike (h : Done job run paths final) : Alike run.tree final.tree :=
  alike_of_map job.outline_revise h.workingDirectory_eq h.node?_eq

/-- What was in a file that has been visited, and what is in it now. -/
lemma Done.exists_of_mem (h : Done job run paths final) (apart : run.tree.Apart paths)
    (mem : path ∈ paths) : ∃ location text access, run.tree.LeadsTo path location ∧
      run.tree.readText path = .ok text ∧ run.tree.Admits path ∧ access.readable = true ∧
      run.tree.node? location = some (.file (Utf8.encode text) access) ∧
      final.tree.node? location = some (job.revise (.file (Utf8.encode text) access)) := by
  obtain ⟨location, leads⟩ := apart.leads path mem
  obtain ⟨content, access, held⟩ := leads.file
  obtain ⟨admits, readable, text, decoded, -⟩ := (clears_iff leads held).1 (h.clears path mem)
  have read := (leads.readText_eq_ok_iff held).2 ⟨admits, readable, decoded⟩
  rw [← Utf8.encode_of_decode? decoded] at held
  refine ⟨location, text, access, leads, read, admits, readable, held, ?_⟩
  rw [h.node?_eq, if_pos (leads.mem mem), held, Option.map_some]

/-- The same visits end well in another tree that holds the same files. -/
lemma Done.of_agree (h : Done job run paths final) (apart : run.tree.Apart paths) {other : Run}
    (agree : Agree paths run.tree other.tree) :
    ∃ final, job.files other paths = (final, .ok ()) ∧ Done job other paths final := by
  have apart' := apart.alike agree.alike
  obtain ⟨final, visits⟩ := exists_files_eq_ok apart'
    fun path mem => (h.clears path mem).of_agree agree apart mem
  exact ⟨final, visits, done_files apart' visits⟩

end Job

end Rehome
