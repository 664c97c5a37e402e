import Rehome.Proofs.Run.Tour

/-!
# Runs that fail

The first visit that fails ends a run. What was done before it stays done, and nothing is done after
it. Main statement: `Job.halts`.
-/

namespace Rehome

namespace Job

/-- The visits of the files `front` ended well, and the next one, of the file that `path` leads to,
failed. -/
structure Halt (job : Job) (run : Run) (front : List Path) (path : Path) (back : List Path)
    (final : Run) (fault : Fault) : Prop where
  /-- The tree is the one that the visits before have left. -/
  before : ∃ mid, job.files run front = (mid, .ok ()) ∧ final.tree = mid.tree
  /-- The file where it failed and all later ones hold what they held. -/
  untouched : ∀ location ∈ (path :: back).filterMap run.tree.locate?,
    final.tree.node? location = run.tree.node? location
  /-- The file is counted, and its clashes are if it could be read. -/
  failure : ∃ clashes, Failure job final.tree path fault clashes ∧
    final.summary = run.summary.record (front.length + 1)
      (front.flatMap (job.rules.changesAt run.tree))
      (front.flatMap (job.rules.clashesAt run.tree) ++ clashes.map (FileClash.mk path))

variable {job : Job} {root : Path} {paths roots : List Path} {run final : Run} {fault : Fault}

lemma halt_files (apart : run.tree.Apart paths) (h : job.files run paths = (final, .error fault)) :
    ∃ front path back, paths = front ++ path :: back ∧
      Halt job run front path back final fault := by
  obtain ⟨front, path, back, mid, rfl, before, failed⟩ := Run.exists_of_each_eq_error h
  have done := done_files apart.left before
  have visit := job.visit_file path mid
  rw [failed] at visit
  obtain ⟨sameTree, clashes, failure, account⟩ := visit.failure
  refine ⟨front, path, back, rfl, ⟨mid, before, sameTree⟩, fun location mem => ?_, clashes, ?_, ?_⟩
  · rw [sameTree, done.node?_eq, if_neg (apart.disjoint mem)]
  · rw [sameTree]
    exact failure
  · rw [account, done.summary_eq, Summary.record_record, List.append_nil]

/-- What stops a run is a root that cannot be walked or a visit that fails. -/
lemma halt_root (h : job.root root run = (final, .error fault)) :
    (∃ directory error, run.tree.walk root = .unlistable directory error ∧
        fault = .unlistable directory error ∧ final.tree = run.tree ∧
        final.summary = run.summary) ∨
      ∃ front path back, run.tree.walk root = .files (front ++ path :: back) ∧
        Halt job (run.tell [.scanning root]) front path back final fault := by
  rw [Job.root] at h
  split at h
  case h_1 => cases h
  case h_2 directory error walked =>
    cases h
    exact .inl ⟨directory, error, walked, rfl, rfl, rfl⟩
  case h_3 paths walked =>
    obtain ⟨front, path, back, rfl, halt⟩ := halt_files (Tree.apart_of_walk walked) h
    exact .inr ⟨front, path, back, walked, halt⟩

/-- A run touches only files that are found below its roots. -/
lemma node?_roots_of_notMem {location : Location} (run : Run) (roots : List Path)
    (other : location ∉
      (roots.flatMap fun root => (run.tree.walk root).paths).filterMap run.tree.locate?) :
    (job.roots run roots).1.tree.node? location = run.tree.node? location := by
  have leads : ∀ path ∈ run.tree.tour roots, ∃ location, run.tree.LeadsTo path location :=
    fun _ mem => Tree.exists_leadsTo_of_mem_tour mem
  rw [(@parallel_roots run run job roots rfl).tree]
  apply (alike_files leads).2
  intro mem
  exact other (List.filterMap_subset _ Tree.tour_subset mem)

/-- A run below a root fails in the walk, and nothing has been done, or at a file: then the files
before it have been visited, it and all later ones are as they were, and the account tells what was
done and what was met. A run fails below one of its roots: those before it have been gone through,
and those after it do not matter. -/
theorem halts (job : Job) :
    (∀ root run final fault, job.root root run = (final, .error fault) →
      (∃ directory error, run.tree.walk root = .unlistable directory error ∧
          fault = .unlistable directory error ∧ final.tree = run.tree ∧
          final.summary = run.summary) ∨
        ∃ front path back, run.tree.walk root = .files (front ++ path :: back) ∧
          Halt job (run.tell [.scanning root]) front path back final fault) ∧
      ∀ tree roots final fault, job.process tree roots = (final, .error fault) →
        ∃ front root back mid, roots = front ++ root :: back ∧
          job.roots (.start tree job.dryRun) front = (mid, .ok ()) ∧
          job.root root mid = (final, .error fault) ∧
          (∀ others, job.process tree (front ++ root :: others) = (final, .error fault)) ∧
          ∀ location, location ∉ ((front ++ [root]).flatMap fun root =>
              (tree.walk root).paths).filterMap tree.locate? →
            final.tree.node? location = tree.node? location := by
  refine ⟨fun root run final fault => halt_root, fun tree roots final fault h => ?_⟩
  obtain ⟨front, root, back, mid, rfl, before, failed⟩ := Run.exists_of_each_eq_error h
  have whatever : ∀ others, job.process tree (front ++ root :: others) = (final, .error fault) := by
    intro others
    rw [process, Job.roots, Run.each_append_of_ok before, Run.each, failed]
  refine ⟨front, root, back, mid, rfl, before, failed, whatever, fun location other => ?_⟩
  have frame := @node?_roots_of_notMem job location (.start tree job.dryRun) (front ++ [root]) other
  have stopped : job.roots (.start tree job.dryRun) (front ++ [root]) = _ := whatever []
  rw [stopped] at frame
  exact frame

/-- The second of three files beside the working directory may not be written. -/
theorem halts_at_read_only :
    let job : Job := ⟨⟨"t".toList, [⟨"A".toList, "a".toList⟩], by decide, by decide⟩, false⟩
    let path (text : String) : Path := Path.ofText text.toList
    let root := path "../s"
    let source := Utf8.encode "import \x7b A \x7d from 'a'".toList
    let tree := ((((Tree.workingIn (path "/p")).makeFile (path "/s/a.ts") source).makeFile
      (path "/s/b.ts") source).makeFile (path "/s/c.ts") source).restrict [path "s", path "b.ts"]
        .readOnly
    let run := Run.start tree false
    let final := (job.root root run).1
    ∃ fault, job.root root run = (final, .error fault) ∧ fault.file? = some (path "../s/b.ts") ∧
      ∃ front file back, tree.walk root = .files (front ++ file :: back) ∧
        Halt job (run.tell [.scanning root]) front file back final fault := by
  intro job path root source tree run final
  have failed : Fault.fileOf? (job.root root run).2 = some (path "../s/b.ts") := by decide +kernel
  -- nothing below depends on what the tree holds
  clear_value tree
  obtain ⟨fault, stopped, named⟩ := Fault.exists_of_fileOf?_eq_some failed
  refine ⟨fault, stopped, named, ((halts job).1 root run final fault stopped).resolve_left ?_⟩
  rintro ⟨directory, error, -, rfl, -⟩
  cases named

end Job

end Rehome
