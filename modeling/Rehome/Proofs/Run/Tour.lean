import Rehome.Files.Growth
import Rehome.Proofs.Run.Files

/-!
# Tours

A run looks for files root by root, while it writes. What is written bears on no root that is walked
later, so that a run visits the files that all the walks find in the first tree. Main statements:
`Job.parallel_roots`, and what a run has done when it ends well (`Job.of_process_eq_ok`).
-/

namespace Rehome

namespace Tree

/-- The files below some roots, up to the first root that cannot be walked. -/
def tour (tree : Tree) : List Path → List Path
  | [] => []
  | root :: rest =>
    match tree.walk root with
    | .noDirectory => tree.tour rest
    | .unlistable _ _ => []
    | .files paths => paths ++ tree.tour rest

/-- How the way through some roots ends if no visit fails. -/
def tourEnd (tree : Tree) : List Path → Except Fault Unit
  | [] => .ok ()
  | root :: rest =>
    match tree.walk root with
    | .noDirectory | .files _ => tree.tourEnd rest
    | .unlistable directory error => .error (.unlistable directory error)

variable {tree a b : Tree} {path : Path} {roots : List Path}

lemma Alike.tour_eq (h : Alike a b) (roots : List Path) : a.tour roots = b.tour roots := by
  induction roots with
  | nil => rfl
  | cons root rest ih => rw [tour, tour, h.walk_eq, ih]

lemma Alike.tourEnd_eq (h : Alike a b) (roots : List Path) : a.tourEnd roots = b.tourEnd roots := by
  induction roots with
  | nil => rfl
  | cons root rest ih => rw [tourEnd, tourEnd, h.walk_eq, ih]

/-- A root that cannot be walked is no file. -/
lemma file?_of_tourEnd {fault : Fault} (h : tree.tourEnd roots = .error fault) :
    fault.file? = none := by
  induction roots with
  | nil => cases h
  | cons root rest ih =>
    rw [tourEnd] at h
    split at h
    case h_1 => exact ih h
    case h_2 => exact ih h
    case h_3 =>
      cases h
      rfl

lemma exists_leadsTo_of_mem_tour (mem : path ∈ tree.tour roots) :
    ∃ location, tree.LeadsTo path location := by
  induction roots with
  | nil => cases mem
  | cons root rest ih =>
    rw [tour] at mem
    split at mem
    case h_1 => exact ih mem
    case h_2 => cases mem
    case h_3 walked =>
      rcases List.mem_append.1 mem with here | later
      · exact exists_leadsTo_of_mem_walk walked here
      · exact ih later

lemma tour_subset : tree.tour roots ⊆ roots.flatMap fun root => (tree.walk root).paths := by
  induction roots with
  | nil => exact List.nil_subset _
  | cons root rest ih =>
    rw [List.flatMap_cons, tour]
    split
    case h_1 => exact List.subset_append_of_subset_right _ ih
    case h_2 => exact List.nil_subset _
    case h_3 walked =>
      rw [walked]
      apply List.append_subset.2
      exact ⟨List.subset_append_left _ _, List.subset_append_of_subset_right _ ih⟩

/-- A way that comes to its end has been through all the roots. -/
lemma tour_eq_flatMap (h : tree.tourEnd roots = .ok ()) :
    tree.tour roots = roots.flatMap fun root => (tree.walk root).paths := by
  induction roots with
  | nil => rfl
  | cons root rest ih =>
    rw [List.flatMap_cons, tour]
    rw [tourEnd] at h
    split at h
    case h_1 walked =>
      rw [walked]
      exact ih h
    case h_2 paths walked =>
      rw [walked]
      exact congrArg (paths ++ ·) (ih h)
    case h_3 => cases h

end Tree

namespace Job

variable {job : Job} {roots : List Path} {a b run : Run} {tree : Tree}

/-- A run goes the way of one that visits the files that are found in the first tree. -/
theorem parallel_roots (job : Job) (roots : List Path) (same : a.tree = b.tree) :
    Parallel a b (job.roots a roots) ((job.files b (b.tree.tour roots)).1,
      (job.files b (b.tree.tour roots)).2.bind fun _ => b.tree.tourEnd roots) := by
  induction roots generalizing a b with
  | nil => exact ⟨same, rfl, id⟩
  | cons root rest ih =>
    rw [Job.roots, Run.each, Job.root, Tree.tour, Tree.tourEnd]
    have same' : (a.tell [.scanning root]).tree = b.tree := same
    rw [same']
    cases walked : b.tree.walk root with
    | noDirectory =>
      have later := @ih ((a.tell [.scanning root]).tell [.noDirectory root]) b same
      exact ⟨later.tree, later.answer, later.summary⟩
    | unlistable directory error => exact ⟨same, rfl, id⟩
    | files paths =>
      dsimp only
      have first := @parallel_files job paths _ _ same'
      have leads : ∀ path ∈ paths, ∃ location, b.tree.LeadsTo path location :=
        fun _ mem => Tree.exists_leadsTo_of_mem_walk walked mem
      have alike := (@alike_files job paths b leads).1
      cases here : job.files (a.tell [.scanning root]) paths with
      | mk a' answer =>
        cases there : job.files b paths with
        | mk b' answer' =>
          rw [here, there] at first
          rw [there] at alike
          obtain rfl : answer = answer' := first.answer
          cases answer with
          | error fault =>
            rw [files, Run.each_append_of_error there]
            exact ⟨first.tree, rfl, first.summary⟩
          | ok _ =>
            rw [files, Run.each_append_of_ok there, alike.tour_eq, alike.tourEnd_eq]
            have later := ih first.tree
            exact ⟨later.tree, later.answer, later.summary ∘ first.summary⟩

lemma parallel_process (job : Job) (tree : Tree) (roots : List Path) :
    Parallel (.start tree job.dryRun) (.start tree job.dryRun) (job.process tree roots)
      ((job.files (.start tree job.dryRun) (tree.tour roots)).1,
        (job.files (.start tree job.dryRun) (tree.tour roots)).2.bind fun _ =>
          tree.tourEnd roots) :=
  job.parallel_roots roots rfl

lemma process_eq_of_isOk (h : (job.process tree roots).2.isOk) :
    job.process tree roots = ((job.process tree roots).1, .ok ()) := by
  cases reached : job.process tree roots with
  | mk run answer =>
    rw [reached] at h
    cases answer with
    | error fault => cases h
    | ok _ => rfl

/-- A run that ends well has made all its visits well. -/
lemma exists_of_process_eq_ok (h : job.process tree roots = (run, .ok ())) :
    tree.tourEnd roots = .ok () ∧ ∃ final,
      job.files (.start tree job.dryRun) (tree.tour roots) = (final, .ok ()) ∧
        run.tree = final.tree ∧ run.summary = final.summary := by
  have way := job.parallel_process tree roots
  rw [h] at way
  cases visits : job.files (.start tree job.dryRun) (tree.tour roots) with
  | mk final answer =>
    rw [visits] at way
    cases answer with
    | error fault => cases way.answer
    | ok _ => exact ⟨way.answer.symm, final, rfl, way.tree, way.summary rfl⟩

/-- A run that ends well has visited the files that all walks find in the first tree. Each of them
holds its text as the rules rewrite it, and all other places hold what they held. The account tells
the files in which types moved, and all clashes, in the order of the visits. -/
theorem of_process_eq_ok {rules : Rules} {tree : Tree} {roots : List Path} {run : Run}
    (once : ((roots.flatMap fun root => (tree.walk root).paths).filterMap tree.locate?).Nodup)
    (h : (Job.mk rules false).process tree roots = (run, .ok ())) :
    let paths := roots.flatMap fun root => (tree.walk root).paths
    run.summary.scanned = .ofNat paths.length ∧
      (∀ path ∈ paths, ∃ location text access, tree.locate? path = some location ∧
        tree.readText path = .ok text ∧
        tree.node? location = some (.file (Utf8.encode text) access) ∧
        run.tree.node? location = some (.file (Utf8.encode (rules.rewrite text).text) access)) ∧
      (∀ location ∉ paths.filterMap tree.locate?, run.tree.node? location = tree.node? location) ∧
      run.summary.changed = paths.flatMap (rules.changesAt tree) ∧
      run.summary.clashes = paths.flatMap (rules.clashesAt tree) := by
  intro paths
  obtain ⟨finished, final, visits, sameTree, sameSummary⟩ := exists_of_process_eq_ok h
  have all : tree.tour roots = paths := Tree.tour_eq_flatMap finished
  have apart : tree.Apart paths := by
    refine ⟨fun path mem => ?_, once⟩
    rw [← all] at mem
    exact Tree.exists_leadsTo_of_mem_tour mem
  rw [all] at visits
  have done := done_files apart visits
  rw [sameTree, sameSummary, done.summary_eq]
  refine ⟨?_, fun path mem => ?_, fun location other => ?_, rfl, rfl⟩
  · exact UInt64.zero_add _
  · obtain ⟨location, text, access, leads, read, -, -, before, after⟩ :=
      done.exists_of_mem apart mem
    rw [revise_of_wet rfl, Rules.revise_encode] at after
    exact ⟨location, text, access, leads.located, read, before, after⟩
  · rw [done.node?_eq, Run.start_tree, if_neg other]

/-- Of three files below roots outside the working directory one holds a type to be moved, and it is
told with it. -/
theorem of_process_eq_ok_outside :
    let rules : Rules := ⟨"t".toList, [⟨"A".toList, "a".toList⟩], by decide, by decide⟩
    let path (text : String) : Path := Path.ofText text.toList
    let roots := [path "../s", path "/q"]
    let tree := (((Tree.workingIn (path "/p")).makeFile (path "/s/a.ts")
      (Utf8.encode "import \x7b A \x7d from 'a'".toList)).makeFile (path "/s/b.tsx")
        (Utf8.encode "let b".toList)).makeFile (path "/q/c.ts") []
    let run := ((Job.mk rules false).process tree roots).1
    ((roots.flatMap fun root => (tree.walk root).paths).filterMap tree.locate?).Nodup ∧
      (Job.mk rules false).process tree roots = (run, .ok ()) ∧
      run.summary.scanned = 3 ∧ run.summary.changed = [⟨path "../s/a.ts", ["A".toList]⟩] := by
  intro rules path roots tree run
  have once : ((roots.flatMap fun root => (tree.walk root).paths).filterMap
      tree.locate?).Nodup := by
    decide +kernel
  have h : (Job.mk rules false).process tree roots = (run, .ok ()) :=
    process_eq_of_isOk (by decide +kernel)
  obtain ⟨scanned, -, -, changed, -⟩ := of_process_eq_ok once h
  refine ⟨once, h, ?_, ?_⟩
  · rw [scanned]
    decide +kernel
  · rw [changed]
    decide +kernel

end Job

end Rehome
