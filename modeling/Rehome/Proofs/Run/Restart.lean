import Rehome.Files.Growth
import Rehome.Proofs.Rewrite.Fit
import Rehome.Proofs.Run.Tour

/-!
# Running again after a failure

A run that fails leaves some files written. Where all texts fit the rules, another run finds nothing
to do in those files. Main statement: when the file that made a run fail has been put right, a run
in the tree that was left ends as one in the first tree would have (`Job.process_again`).
-/

namespace Rehome

namespace Job

open Rehome.Tree

variable {rules : Rules} {tree b : Tree} {front roots : List Path} {path : Path} {half mid : Run}
  {fault : Fault}

/-- A visit that failed was one of a file that was found in the first tree. -/
lemma exists_of_process_failed {job : Job} (h : job.process tree roots = (half, .error fault))
    (named : fault.file? = some path) :
    ∃ front back mid, tree.tour roots = front ++ path :: back ∧
      job.files (.start tree job.dryRun) front = (mid, .ok ()) ∧ half.tree = mid.tree := by
  have way := job.parallel_process tree roots
  rw [h] at way
  cases visits : job.files (.start tree job.dryRun) (tree.tour roots) with
  | mk final answer =>
    rw [visits] at way
    cases answer with
    | ok _ =>
      rw [file?_of_tourEnd way.answer.symm] at named
      cases named
    | error other =>
      obtain rfl : fault = other := Except.error.inj way.answer
      obtain ⟨front, other, back, mid, split, before, failed⟩ := Run.exists_of_each_eq_error visits
      have visit := job.visit_file other mid
      rw [failed] at visit
      obtain ⟨same, clashes, failure, -⟩ := visit.failure
      obtain rfl : path = other := Option.some.inj (named.symm.trans failure.file?_eq)
      exact ⟨front, back, mid, split, before, way.tree.trans same⟩

/-- Runs that come to the same tree on the way end in the same way. -/
lemma process_eq_of_alike {job : Job} {a : Tree} {back : List Path} {first second : Run}
    (alike : Alike a b) (split : a.tour roots = front ++ back)
    (visits : job.files (.start a job.dryRun) front = (first, .ok ()))
    (visits' : job.files (.start b job.dryRun) front = (second, .ok ()))
    (same : first.tree = second.tree) :
    (job.process a roots).2 = (job.process b roots).2 ∧
      (job.process a roots).1.tree = (job.process b roots).1.tree := by
  have way := job.parallel_process a roots
  have way' := job.parallel_process b roots
  have rest := @parallel_files job back _ _ same
  rw [files, files] at rest
  rw [split, files, Run.each_append_of_ok visits, alike.tourEnd_eq] at way
  rw [← alike.tour_eq, split, files, Run.each_append_of_ok visits', ← rest.answer] at way'
  exact ⟨way.answer.trans way'.answer.symm, way.tree.trans (rest.tree.trans way'.tree.symm)⟩

/-- Files that have been revised are left as they are when they are visited again. -/
lemma exists_files_again {run again : Run} (isModule : Import.IsModule rules.destination)
    (apart : run.tree.Apart front)
    (fits : ∀ path ∈ front, ∀ text, run.tree.readText path = .ok text → rules.Fits text)
    (done : Done ⟨rules, false⟩ run front mid) (agree : Agree front mid.tree again.tree) :
    ∃ final, Job.files ⟨rules, false⟩ again front = (final, .ok ()) ∧ final.tree = again.tree := by
  have alike := done.alike.trans agree.alike
  have apart' := apart.alike alike
  have revised : ∀ path ∈ front, ∃ location text access, again.tree.LeadsTo path location ∧
      rules.Fits text ∧
      again.tree.node? location = some (.file (Utf8.encode (rules.rewrite text).text) access) ∧
      again.tree.Admits path ∧ access.readable = true := by
    intro path mem
    obtain ⟨location, text, access, leads, read, admits, readable, -, held⟩ :=
      done.exists_of_mem apart mem
    refine ⟨location, text, access, leads.alike alike, fits path mem text read, ?_,
      alike.admits_iff.1 admits, readable⟩
    rw [← agree.held location ((leads.alike done.alike).mem mem), held, revise_of_wet rfl,
      Rules.revise_encode]
  have clears : ∀ path ∈ front, Clears ⟨rules, false⟩ again.tree path := by
    intro path mem
    obtain ⟨location, text, access, leads, fits, held, admits, readable⟩ := revised path mem
    apply (clears_iff leads held).2
    refine ⟨admits, readable, _, Utf8.decode?_encode _, fun some => ?_⟩
    exact absurd (fits.moved_rewrite isModule) some
  obtain ⟨final, visits⟩ := exists_files_eq_ok apart' clears
  have redone := done_files apart' visits
  refine ⟨final, visits, ext_node? redone.workingDirectory_eq fun other => ?_⟩
  rw [redone.node?_eq]
  split
  case isFalse => rfl
  case isTrue mem =>
    obtain ⟨path, mem, located⟩ := List.mem_filterMap.1 mem
    obtain ⟨location, text, access, leads, fits, held, -⟩ := revised path mem
    obtain rfl : other = location := Option.some.inj (located.symm.trans leads.located)
    rw [held, Option.map_some, revise_of_wet rfl, Rules.revise_encode, fits.text_rewrite isModule]

/-- Running again in the tree that a failed run left, once the file that it failed at holds
something else or may be used otherwise, has the answer of a run in the first tree with the same
file put right, and leaves the same tree. -/
theorem process_again (isModule : Import.IsModule rules.destination)
    (once : ((tree.tour roots).filterMap tree.locate?).Nodup)
    (fits : ∀ path ∈ tree.tour roots, ∀ text, tree.readText path = .ok text → rules.Fits text)
    (h : (Job.mk rules false).process tree roots = (half, .error fault))
    (named : fault.file? = some path) :
    path ∈ tree.tour roots ∧ ∃ location, tree.LeadsTo path location ∧ ∀ content access,
      ((Job.mk rules false).process (half.tree.insert location (.file content access)) roots).2 =
        ((Job.mk rules false).process (tree.insert location (.file content access)) roots).2 ∧
      ((Job.mk rules false).process (half.tree.insert location (.file content access))
        roots).1.tree =
        ((Job.mk rules false).process (tree.insert location (.file content access))
          roots).1.tree := by
  obtain ⟨front, back, mid, split, before, left⟩ := exists_of_process_failed h named
  have apart : tree.Apart (front ++ path :: back) := by
    rw [← split]
    exact ⟨fun path mem => exists_leadsTo_of_mem_tour mem, once⟩
  rw [split] at fits ⊢
  have mem : path ∈ front ++ path :: back := List.mem_append_right _ List.mem_cons_self
  obtain ⟨location, leads⟩ := apart.leads path mem
  refine ⟨mem, location, leads, fun content access => ?_⟩
  have done := done_files apart.left before
  have alike : Alike tree mid.tree := done.alike
  have beside := apart.disjoint (leads.mem List.mem_cons_self)
  have leads' := leads.alike alike
  have agree := leads.agree_insert beside content access
  have agree' := leads'.agree_insert (alike.filterMap_eq front ▸ beside) content access
  -- both runs visit the files in front of the fault, and come to the same tree there
  obtain ⟨first, visits, redone⟩ := @Done.of_agree _ _ _ _ done apart.left
    (.start (tree.insert location (.file content access)) false) agree
  obtain ⟨second, visits', kept⟩ := @exists_files_again _ _ _ _
    (.start (mid.tree.insert location (.file content access)) false) isModule apart.left
    (fun path mem => fits path (List.mem_append_left _ mem)) done agree'
  have same : second.tree = first.tree := by
    rw [kept]
    refine ext_node? (agree'.alike.symm.trans (alike.symm.trans (agree.alike.trans
      redone.alike))).workingDirectory_eq fun other => ?_
    rw [redone.node?_eq, Run.start_tree, Run.start_tree, ← agree.alike.filterMap_eq,
      leads.node?_insert, leads'.node?_insert, done.node?_eq]
    by_cases here : other = location
    · subst here
      rw [if_pos rfl, if_neg beside, if_pos rfl]
    · rw [if_neg here, if_neg here]
      rfl
  rw [left]
  have alike' := alike.trans agree'.alike
  exact process_eq_of_alike (alike'.symm.trans agree.alike)
    ((alike'.tour_eq roots).symm.trans split) visits' visits same

/-- The second of two files is not UTF-8. Once it is, a run in the tree where the first has been
written already comes to its end. -/
theorem process_again_decoded :
    let rules : Rules := ⟨"t".toList, [⟨"A".toList, "a".toList⟩], by decide, by decide⟩
    let roots := [Path.ofText "/s".toList]
    let path := Path.ofText "/s/b.ts".toList
    let location := [Path.ofText "s".toList, Path.ofText "b.ts".toList]
    let tree := ((Tree.workingIn (Path.ofText "/p".toList)).makeFile (Path.ofText "/s/a.ts".toList)
      (Utf8.encode "import \x7b A \x7d from 'a'".toList)).makeFile path [0xFF]
    let half := ((Job.mk rules false).process tree roots).1
    let mended := Node.file (Utf8.encode "let b".toList) .full
    Import.IsModule rules.destination ∧ ((tree.tour roots).filterMap tree.locate?).Nodup ∧
      (∀ path ∈ tree.tour roots, ∀ text, tree.readText path = .ok text → rules.Fits text) ∧
      (∃ fault, (Job.mk rules false).process tree roots = (half, .error fault) ∧
        fault.file? = some path) ∧
      half.tree ≠ tree ∧
      ((Job.mk rules false).process (half.tree.insert location mended) roots).2.isOk ∧
      ((Job.mk rules false).process (half.tree.insert location mended) roots).2 =
        ((Job.mk rules false).process (tree.insert location mended) roots).2 ∧
      ((Job.mk rules false).process (half.tree.insert location mended) roots).1.tree =
        ((Job.mk rules false).process (tree.insert location mended) roots).1.tree := by
  intro rules roots path location tree half mended
  have isModule : Import.IsModule rules.destination := by decide
  have once : ((tree.tour roots).filterMap tree.locate?).Nodup := by decide +kernel
  have fits : ∀ path ∈ tree.tour roots, ∀ text,
      tree.readText path = .ok text → rules.Fits text := by
    have all : ∀ path ∈ tree.tour roots, ∀ text ∈ (tree.readText path).toOption,
        rules.Fits text := by decide +kernel
    intro path mem text read
    exact all path mem text (by rw [read]; rfl)
  have failed : Fault.fileOf? ((Job.mk rules false).process tree roots).2 = some path := by
    decide +kernel
  have written : half.tree ≠ tree := by decide +kernel
  have place : tree.locate? path = some location := by decide +kernel
  have ends : ((Job.mk rules false).process (half.tree.insert location mended) roots).2.isOk := by
    decide +kernel
  -- nothing below depends on what the tree holds
  clear_value tree
  obtain ⟨fault, stopped, named⟩ := Fault.exists_of_fileOf?_eq_some failed
  obtain ⟨-, location', leads, mends⟩ := process_again isModule once fits stopped named
  have here : location' = location := Option.some.inj (leads.located.symm.trans place)
  rw [here] at mends
  exact ⟨isModule, once, fits, ⟨fault, stopped, named⟩, written, ends, mends _ _⟩

end Job

end Rehome
