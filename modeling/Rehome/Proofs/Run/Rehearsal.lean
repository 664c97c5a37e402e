import Rehome.Proofs.Run.Tour

/-!
# Rehearsals

A dry run leaves the tree, so that it reads every file as it was at first. A run that writes reads
other trees from the second file on, but what it has written bears on no file that is still to come.
Main statement: `Job.process_rehearsed`, a run that ends well has the account of its rehearsal.
-/

namespace Rehome

namespace Job

variable {job : Job} {rules : Rules} {path : Path} {paths roots : List Path} {tree : Tree}
  {run after : Run} {result : Except Fault Bool}

/-! ### The tree -/

lemma Visit.tree_eq_of_dry (dry : job.dryRun = true) (h : Visit job path run (after, result)) :
    after.tree = run.tree := by
  cases h with
  | unread => rfl
  | idle => rfl
  | rehearsed => rfl
  | unwritten _ _ wet =>
    rw [dry] at wet
    cases wet
  | written _ _ wet =>
    rw [dry] at wet
    cases wet

/-- Dry visits leave the tree, however they end. -/
lemma tree_files_of_dry (dry : job.dryRun = true) (run : Run) (paths : List Path) :
    (job.files run paths).1.tree = run.tree := by
  refine files_induction (motive := fun after => after.tree = run.tree) rfl ?_
  intro path _ before after result visit same
  exact (visit.tree_eq_of_dry dry).trans same

/-- A dry run leaves the tree, however it ends. -/
lemma tree_process_of_dry (dry : job.dryRun = true) (tree : Tree) (roots : List Path) :
    (job.process tree roots).1.tree = tree := by
  rw [(job.parallel_process tree roots).tree, tree_files_of_dry dry, Run.start_tree]

/-! ### The account -/

/-- A file that can be rewritten can be looked at. -/
lemma Clears.rehearsed (h : (Job.mk rules false).Clears tree path) :
    (Job.mk rules true).Clears tree path := by
  obtain ⟨text, read, -⟩ := h
  exact ⟨text, read, fun _ wet => by cases wet⟩

/-- What a run that has visited some files, each of them once, has in its account. -/
lemma Done.summary_of_start {dryRun : Bool}
    (h : Done job (.start tree dryRun) paths run) :
    run.summary = ⟨dryRun, .ofNat paths.length, paths.flatMap (job.rules.changesAt tree),
      paths.flatMap (job.rules.clashesAt tree)⟩ := by
  rw [h.summary_eq, Run.start_tree, Summary.record]
  simp only [Run.start, Summary.empty, UInt64.zero_add, List.nil_append]

/-- Visits that end well do so in the rehearsal too, with the same account. -/
lemma files_rehearsed (apart : tree.Apart paths)
    (h : (Job.mk rules false).files (.start tree false) paths = (run, .ok ())) :
    ∃ rehearsal, (Job.mk rules true).files (.start tree true) paths = (rehearsal, .ok ()) ∧
      rehearsal.summary = { run.summary with dryRun := true } ∧ run.summary.dryRun = false := by
  have done := done_files apart h
  obtain ⟨rehearsal, visits⟩ := @exists_files_eq_ok ⟨rules, true⟩ paths (.start tree true) apart
    fun path mem => (done.clears path mem).rehearsed
  have rehearsed := done_files apart visits
  refine ⟨rehearsal, visits, ?_, ?_⟩
  · rw [rehearsed.summary_of_start, done.summary_of_start]
  · rw [done.summary_of_start]

/-- A dry run never changes the tree. Where no file is found twice and a run that writes ends well,
the dry run ends well too, and its account differs in nothing but that it says so. -/
theorem process_rehearsed (rules : Rules) (tree : Tree) (roots : List Path) :
    ((Job.mk rules true).process tree roots).1.tree = tree ∧
      ∀ run, ((roots.flatMap fun root => (tree.walk root).paths).filterMap tree.locate?).Nodup →
        (Job.mk rules false).process tree roots = (run, .ok ()) →
        ∃ rehearsal, (Job.mk rules true).process tree roots = (rehearsal, .ok ()) ∧
          rehearsal.summary = { run.summary with dryRun := true } ∧
          run.summary.dryRun = false := by
  refine ⟨tree_process_of_dry rfl tree roots, fun run once h => ?_⟩
  obtain ⟨finished, final, visits, -, sameSummary⟩ := exists_of_process_eq_ok h
  have apart : tree.Apart (tree.tour roots) := by
    refine ⟨fun path mem => Tree.exists_leadsTo_of_mem_tour mem, ?_⟩
    rw [Tree.tour_eq_flatMap finished]
    exact once
  obtain ⟨rehearsal, rehearsed, account, wet⟩ := files_rehearsed apart visits
  have way := (Job.mk rules true).parallel_process tree roots
  dsimp only at way
  rw [rehearsed] at way
  refine ⟨((Job.mk rules true).process tree roots).1, Prod.ext rfl ?_, ?_, ?_⟩
  · rw [way.answer, Except.bind, finished]
  · rw [way.summary rfl, account, sameSummary]
  · rw [sameSummary]
    exact wet

/-- Two files below the second of two roots, of which the first is missing and the other one lies
beside the working directory. -/
theorem process_rehearsed_pair :
    let rules : Rules := ⟨"t".toList, [⟨"A".toList, "a".toList⟩], by decide, by decide⟩
    let path (text : String) : Path := Path.ofText text.toList
    let roots := [path "none", path "../s"]
    let tree := ((Tree.workingIn (path "/p")).makeFile (path "/s/a.ts")
      (Utf8.encode "import \x7b A \x7d from 'a'".toList)).makeFile (path "/s/b.tsx")
        (Utf8.encode "import \x7b A \x7d from \"a\"".toList)
    let run := ((Job.mk rules false).process tree roots).1
    ((roots.flatMap fun root => (tree.walk root).paths).filterMap tree.locate?).Nodup ∧
      (Job.mk rules false).process tree roots = (run, .ok ()) ∧
      ∃ rehearsal, (Job.mk rules true).process tree roots = (rehearsal, .ok ()) ∧
        rehearsal.summary = { run.summary with dryRun := true } ∧
        run.summary.dryRun = false := by
  intro rules path roots tree run
  have once : ((roots.flatMap fun root => (tree.walk root).paths).filterMap
      tree.locate?).Nodup := by
    decide +kernel
  have h : (Job.mk rules false).process tree roots = (run, .ok ()) :=
    process_eq_of_isOk (by decide +kernel)
  exact ⟨once, h, (process_rehearsed rules tree roots).2 run once h⟩

end Job

end Rehome
