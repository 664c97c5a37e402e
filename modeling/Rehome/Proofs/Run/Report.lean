import Rehome.Proofs.Rewrite.Fit
import Rehome.Proofs.Run.Tour

/-!
# What a run reports

Roots may be repeated, lie inside each other or be links to the same directory, so that a run comes
to a file again after it has written it. Where all texts fit the rules it finds nothing to do there.
Main statement: a run tells each file that it has changed, each once and no other
(`Job.changed_of_process_eq_ok`).
-/

namespace Rehome

namespace Job

/-- What a run from `tree` has come to: it has told the files `files` as changed, each once, and has
revised them, each once. -/
structure Told (rules : Rules) (tree : Tree) (files : List Location) (run : Run) : Prop where
  alike : Tree.Alike tree run.tree
  nodup : files.Nodup
  located : run.summary.changed.map (fun change => tree.locate? change.path) = files.map some
  moved : ∀ location ∈ files, ∃ text access,
    tree.node? location = some (.file (Utf8.encode text) access) ∧ rules.Fits text ∧
      (rules.rewrite text).moved ≠ []
  node?_eq : ∀ location, run.tree.node? location =
    if location ∈ files then (tree.node? location).map rules.revise else tree.node? location

variable {rules : Rules} {tree : Tree} {files : List Location} {path : Path} {location : Location}
  {before after run : Run} {result : Except Fault Bool} {text : Text}

lemma Told.start (rules : Rules) (tree : Tree) (dryRun : Bool) :
    Told rules tree [] (.start tree dryRun) where
  alike := .refl tree
  nodup := .nil
  located := rfl
  moved := List.forall_mem_nil _
  node?_eq _ := rfl

/-- A file that has been told holds a text that the rules have been applied to. -/
lemma Told.moved_eq_nil (h : Told rules tree files run)
    (isModule : Import.IsModule rules.destination) (mem : location ∈ files)
    (leads : run.tree.LeadsTo path location) (read : run.tree.readText path = .ok text) :
    (rules.rewrite text).moved = [] := by
  obtain ⟨first, access, held, fits, -⟩ := h.moved location mem
  obtain ⟨access', held'⟩ := leads.exists_of_readText read
  rw [h.node?_eq, if_pos mem, held, Option.map_some, Rules.revise_encode, Option.some.injEq,
    Node.file.injEq] at held'
  rw [← Utf8.encode_injective held'.1]
  exact fits.moved_rewrite isModule

/-- A visit tells the file if it changes it, and changes no file that has been told. -/
lemma Told.visit (h : Told rules tree files before) (isModule : Import.IsModule rules.destination)
    (leads : tree.LeadsTo path location)
    (fits : ∀ text, tree.readText path = .ok text → rules.Fits text)
    (visit : Visit ⟨rules, false⟩ path before (after, result)) :
    ∃ files, Told rules tree files after := by
  have leads' := leads.alike h.alike
  have alike := h.alike.trans (visit.alike leads')
  cases visit with
  | unread => exact ⟨files, alike, h.nodup, h.located, h.moved, h.node?_eq⟩
  | idle => exact ⟨files, alike, h.nodup, h.located, h.moved, h.node?_eq⟩
  | rehearsed _ _ dry => cases dry
  | unwritten => exact ⟨files, alike, h.nodup, h.located, h.moved, h.node?_eq⟩
  | @written text new read some _ written =>
    have fresh : location ∉ files := fun mem => some (h.moved_eq_nil isModule mem leads' read)
    have same : before.tree.node? location = tree.node? location := by
      rw [h.node?_eq, if_neg fresh]
    obtain ⟨access, held⟩ := leads'.exists_of_readText read
    have read' : tree.readText path = .ok text :=
      (leads.readText_congr h.alike same.symm).trans read
    refine ⟨files ++ [location], alike, ?_, ?_, ?_, fun other => ?_⟩
    · rw [← List.concat_eq_append]
      exact h.nodup.concat fresh
    · rw [List.map_append, ← h.located, List.map_singleton, ← leads.located]
      exact List.map_append
    · intro other mem
      rcases List.mem_append.1 mem with early | late
      · exact h.moved other early
      · cases List.mem_singleton.1 late
        exact ⟨text, access, same.symm.trans held, fits text read', some⟩
    · refine (leads'.node?_of_writeText held written other).trans ?_
      by_cases here : other = location
      · subst here
        rw [if_pos rfl, if_pos (by simp), ← same, held, Option.map_some, Rules.revise_encode]
      · rw [if_neg here, h.node?_eq]
        simp [here]

/-- The files that have been told are those that hold other bytes than before. -/
lemma Told.mem_iff (h : Told rules tree files run) (isModule : Import.IsModule rules.destination) :
    location ∈ files ↔ run.tree.content? location ≠ tree.content? location := by
  constructor
  · intro mem same
    obtain ⟨text, access, held, fits, some⟩ := h.moved location mem
    rw [Tree.content?, Tree.content?, h.node?_eq, if_pos mem, held, Option.map_some,
      Rules.revise_encode] at same
    exact Rules.text_rewrite_ne isModule fits.tidy some
      (Utf8.encode_injective (Option.some.inj same))
  · intro differs
    by_contra other
    apply differs
    rw [Tree.content?, Tree.content?, h.node?_eq, if_neg other]

lemma Told.length_eq (h : Told rules tree files run)
    (isModule : Import.IsModule rules.destination) :
    run.summary.changed.length = (tree.changes run.tree).length := by
  have told := congrArg List.length h.located
  rw [List.length_map, List.length_map] at told
  have same : files.Perm ((tree.changes run.tree).map Prod.fst) := by
    rw [List.perm_ext_iff_of_nodup h.nodup Tree.nodup_changes]
    intro location
    constructor
    · intro mem
      obtain ⟨text, access, held, -⟩ := h.moved location mem
      have now : run.tree.content? location = some (Utf8.encode (rules.rewrite text).text) := by
        rw [Tree.content?, h.node?_eq, if_pos mem, held, Option.map_some, Rules.revise_encode]
      have differs := (h.mem_iff isModule).1 mem
      rw [now] at differs
      exact List.mem_map.2 ⟨(location, _), Tree.mem_changes_iff.2 ⟨now, differs.symm⟩, rfl⟩
    · intro mem
      obtain ⟨⟨place, bytes⟩, change, rfl⟩ := List.mem_map.1 mem
      obtain ⟨now, differs⟩ := Tree.mem_changes_iff.1 change
      apply (h.mem_iff isModule).2
      rw [now]
      exact differs.symm
  rw [told, same.length_eq, List.length_map]

/-- If all texts below the roots fit the rules, the files that a run has told as changed are those
that hold other bytes than before, each of them told once, whatever the roots are. -/
theorem changed_of_process_eq_ok {rules : Rules} {tree : Tree} {roots : List Path} {run : Run}
    (isModule : Import.IsModule rules.destination)
    (fits : ∀ root ∈ roots, ∀ path ∈ (tree.walk root).paths, ∀ text,
      tree.readText path = .ok text → rules.Fits text)
    (h : (Job.mk rules false).process tree roots = (run, .ok ())) :
    ∃ files : List Location,
      run.summary.changed.map (fun change => tree.locate? change.path) = files.map some ∧
      files.Nodup ∧
      (∀ location, location ∈ files ↔ run.tree.content? location ≠ tree.content? location) ∧
      run.summary.changed.length = (tree.changes run.tree).length := by
  obtain ⟨-, final, visits, sameTree, sameSummary⟩ := exists_of_process_eq_ok h
  have told : ∃ files, Told rules tree files final := by
    have kept := @files_induction ⟨rules, false⟩ (tree.tour roots) (.start tree false)
      (fun run => ∃ files, Told rules tree files run) ⟨[], .start rules tree false⟩ ?_
    · rw [visits] at kept
      exact kept
    · rintro path mem before after result visit ⟨files, told⟩
      obtain ⟨location, leads⟩ := Tree.exists_leadsTo_of_mem_tour mem
      obtain ⟨root, known, found⟩ := List.mem_flatMap.1 (Tree.tour_subset mem)
      exact told.visit isModule leads (fits root known path found) visit
  obtain ⟨files, told⟩ := told
  rw [sameTree, sameSummary]
  exact ⟨files, told.located, told.nodup, fun _ => told.mem_iff isModule, told.length_eq isModule⟩

/-- One file is found four times, below the working directory, its path from the root, a way out of
it and back, and a link; another file has nothing to be moved. -/
theorem changed_of_process_eq_ok_aliased :
    let rules : Rules := ⟨"t".toList, [⟨"A".toList, "a".toList⟩], by decide, by decide⟩
    let path (text : String) : Path := Path.ofText text.toList
    let roots := [path ".", path "/p", path "../p/", path "../l/.."]
    let tree := (((Tree.workingIn (path "/p")).makeFile (path "s/a.ts")
      (Utf8.encode "import \x7b A \x7d from 'a'".toList)).makeFile (path "s/b.ts")
        (Utf8.encode "let b".toList)).makeLink (path "/l") (path "/p/s")
    let run := ((Job.mk rules false).process tree roots).1
    Import.IsModule rules.destination ∧
      (∀ root ∈ roots, ∀ path ∈ (tree.walk root).paths, ∀ text,
        tree.readText path = .ok text → rules.Fits text) ∧
      (Job.mk rules false).process tree roots = (run, .ok ()) ∧ run.summary.scanned = 8 ∧
      run.summary.changed.length = 1 := by
  intro rules path roots tree run
  have isModule : Import.IsModule rules.destination := by decide
  have fits : ∀ root ∈ roots, ∀ path ∈ (tree.walk root).paths, ∀ text,
      tree.readText path = .ok text → rules.Fits text := by
    have all : ∀ root ∈ roots, ∀ path ∈ (tree.walk root).paths,
        ∀ text ∈ (tree.readText path).toOption, rules.Fits text := by decide +kernel
    intro root known path found text read
    exact all root known path found text (by rw [read]; rfl)
  have h : (Job.mk rules false).process tree roots = (run, .ok ()) :=
    process_eq_of_isOk (by decide +kernel)
  have scanned : run.summary.scanned = 8 := by decide +kernel
  obtain ⟨files, -, -, -, count⟩ := changed_of_process_eq_ok isModule fits h
  refine ⟨isModule, fits, h, scanned, count.trans ?_⟩
  decide +kernel

end Job

end Rehome
