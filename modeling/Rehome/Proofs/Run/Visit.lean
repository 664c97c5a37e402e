import Rehome.Proofs.Files.Access
import Rehome.Proofs.Rewrite.Step
import Rehome.Run

/-!
# Visits of files

What a run does to one file: it fails to read it, leaves it, rewrites it or fails to write it. Main
statements: the cases (`Job.visit_file`), when a visit ends well (`Job.exists_file_eq_ok_iff`) and
what the tree holds then (`Job.Visit.node?_eq`).
-/

namespace Rehome

namespace Rules

/-- The pass over the file that a path leads to, if the file reads as a text. -/
def pass? (rules : Rules) (tree : Tree) (path : Path) : Option Pass :=
  match tree.readText path with
  | .error _ => none
  | .ok text => some (rules.rewrite text)

/-- What is counted as changed if the file that a path leads to is visited. -/
def changesAt (rules : Rules) (tree : Tree) (path : Path) : List Change :=
  match rules.pass? tree path with
  | none => []
  | some pass => if pass.moved = [] then [] else [⟨path, pass.movedNames⟩]

/-- The clashes in the file that a path leads to. -/
def clashesAt (rules : Rules) (tree : Tree) (path : Path) : List FileClash :=
  match rules.pass? tree path with
  | none => []
  | some pass => pass.clashes.map (FileClash.mk path)

section

variable {tree : Tree} {path : Path} {text : Text}

lemma changesAt_eq (rules : Rules) (read : tree.readText path = .ok text) :
    rules.changesAt tree path =
      if (rules.rewrite text).moved = [] then []
      else [⟨path, (rules.rewrite text).movedNames⟩] := by
  rw [changesAt, pass?, read]

lemma clashesAt_eq (rules : Rules) (read : tree.readText path = .ok text) :
    rules.clashesAt tree path = (rules.rewrite text).clashes.map (FileClash.mk path) := by
  rw [clashesAt, pass?, read]

end

/-- A place after the rules have been applied to the text there. -/
def revise (rules : Rules) : Node → Node
  | .file content access =>
    match Utf8.decode? content with
    | none => .file content access
    | some text => .file (Utf8.encode (rules.rewrite text).text) access
  | .directory rights => .directory rights
  | .link target => .link target
  | .device content access => .device content access

@[simp] lemma revise_encode (rules : Rules) (text : Text) (access : Access) :
    rules.revise (.file (Utf8.encode text) access) =
      .file (Utf8.encode (rules.rewrite text).text) access := by
  rw [revise, Utf8.decode?_encode]

@[simp] lemma outline_revise (rules : Rules) (node : Node) :
    (rules.revise node).outline = node.outline := by
  cases node with
  | directory rights => rfl
  | link target => rfl
  | device content access => rfl
  | file content access =>
    rw [revise]
    split
    case h_1 => rfl
    case h_2 => rfl

end Rules

namespace Summary

/-- The account with more files looked at. -/
def record (summary : Summary) (scanned : Nat) (changed : List Change) (clashes : List FileClash) :
    Summary :=
  { summary with
    scanned := summary.scanned + .ofNat scanned
    changed := summary.changed ++ changed
    clashes := summary.clashes ++ clashes }

variable {summary : Summary} {scanned more : Nat} {changed further : List Change}
  {clashes others : List FileClash}

@[simp] lemma record_nil : summary.record 0 [] [] = summary := by
  rw [record, List.append_nil, List.append_nil]
  exact congrArg (Summary.mk _ · _ _) (UInt64.add_zero _)

@[simp] lemma record_record :
    (summary.record scanned changed clashes).record more further others =
      summary.record (scanned + more) (changed ++ further) (clashes ++ others) := by
  simp only [record, List.append_assoc, UInt64.ofNat_add, UInt64.add_assoc]

end Summary

@[simp] lemma Run.start_tree (tree : Tree) (dryRun : Bool) : (start tree dryRun).tree = tree :=
  rfl

namespace Fault

/-- The file that could not be read or written. -/
def file? : Fault → Option Path
  | access path _ | notUtf8 path => some path
  | unlistable _ _ | document _ _ | rules _ => none

/-- The file that kept a run from its end. -/
def fileOf? {α : Type} : Except Fault α → Option Path
  | .error fault => fault.file?
  | .ok _ => none

lemma exists_of_fileOf?_eq_some {α : Type} {path : Path} {result : Run × Except Fault α}
    (h : fileOf? result.2 = some path) :
    ∃ fault, result = (result.1, .error fault) ∧ fault.file? = some path := by
  obtain ⟨run, answer⟩ := result
  cases answer with
  | error fault => exact ⟨fault, rfl, h⟩
  | ok a => cases h

end Fault

namespace Job

/-- A place after a visit that ended well. -/
def revise (job : Job) (node : Node) : Node :=
  if job.dryRun then node else job.rules.revise node

lemma revise_of_wet {job : Job} (wet : job.dryRun = false) (node : Node) :
    job.revise node = job.rules.revise node := by
  rw [revise, wet, if_neg Bool.false_ne_true]

@[simp] lemma outline_revise (job : Job) (node : Node) :
    (job.revise node).outline = node.outline := by
  rw [revise]
  split
  case isTrue => rfl
  case isFalse => exact job.rules.outline_revise node

/-- What a visit of the file that a path leads to can come to. -/
inductive Visit (job : Job) (path : Path) (run : Run) : Run × Except Fault Bool → Prop
  | unread {fault : Fault} (failed : run.tree.readText path = .error fault) :
    Visit job path run (run.countFile path, .error fault)
  | idle {text : Text} (read : run.tree.readText path = .ok text)
      (none : (job.rules.rewrite text).moved = []) :
    Visit job path run ((run.countFile path).note path (job.rules.rewrite text), .ok false)
  | rehearsed {text : Text} (read : run.tree.readText path = .ok text)
      (some : (job.rules.rewrite text).moved ≠ []) (dry : job.dryRun = true) :
    Visit job path run
      (((run.countFile path).note path (job.rules.rewrite text)).countChange path
        (job.rules.rewrite text) (.wouldUpdate path (job.rules.rewrite text).movedNames), .ok true)
  | unwritten {text : Text} {fault : Fault} (read : run.tree.readText path = .ok text)
      (some : (job.rules.rewrite text).moved ≠ []) (wet : job.dryRun = false)
      (failed : run.tree.writeText path (job.rules.rewrite text).text = .error fault) :
    Visit job path run ((run.countFile path).note path (job.rules.rewrite text), .error fault)
  | written {text : Text} {tree : Tree} (read : run.tree.readText path = .ok text)
      (some : (job.rules.rewrite text).moved ≠ []) (wet : job.dryRun = false)
      (written : run.tree.writeText path (job.rules.rewrite text).text = .ok tree) :
    Visit job path run
      ((({ (run.countFile path).note path (job.rules.rewrite text) with tree } : Run).countChange
        path (job.rules.rewrite text) (.updated path (job.rules.rewrite text).movedNames)),
        .ok true)

variable {job : Job} {path : Path} {location : Location} {run after a b : Run} {tree : Tree}
  {moved : Bool} {fault : Fault} {result : Except Fault Bool} {content : Bytes} {access : Access}
  {text : Text}

lemma visit_file (job : Job) (path : Path) (run : Run) :
    Visit job path run (job.file path run) := by
  rw [file]
  dsimp only
  cases read : run.tree.readText path with
  | error fault =>
    have same : (run.countFile path).tree.readText path = .error fault := read
    rw [same]
    exact .unread read
  | ok text =>
    have same : (run.countFile path).tree.readText path = .ok text := read
    rw [same]
    dsimp only
    split
    case isTrue none => exact .idle read (List.isEmpty_iff.1 none)
    case isFalse some =>
      rw [List.isEmpty_iff] at some
      split
      case isTrue dry => exact .rehearsed read some dry
      case isFalse wet =>
        rw [Bool.not_eq_true] at wet
        split
        case h_1 failed => exact .unwritten read some wet failed
        case h_2 written => exact .written read some wet written

/-! ### Visits that end well -/

lemma Visit.summary_eq (h : Visit job path run (after, .ok moved)) :
    after.summary = run.summary.record 1 (job.rules.changesAt run.tree path)
      (job.rules.clashesAt run.tree path) := by
  cases h with
  | idle read none =>
    rw [Rules.changesAt_eq _ read, Rules.clashesAt_eq _ read, if_pos none, Summary.record,
      List.append_nil]
    rfl
  | rehearsed read some =>
    rw [Rules.changesAt_eq _ read, Rules.clashesAt_eq _ read, if_neg some]
    rfl
  | written read some =>
    rw [Rules.changesAt_eq _ read, Rules.clashesAt_eq _ read, if_neg some]
    rfl

lemma Visit.node?_eq (h : Visit job path run (after, .ok moved))
    (leads : run.tree.LeadsTo path location) (other : Location) :
    after.tree.node? other =
      if other = location then (run.tree.node? other).map job.revise else run.tree.node? other := by
  by_cases same : other = location
  · subst same
    rw [if_pos rfl]
    cases h with
    | idle read none =>
      obtain ⟨access, held⟩ := leads.exists_of_readText read
      change run.tree.node? other = _
      rw [held, Option.map_some, revise]
      split
      case isTrue => rfl
      case isFalse => rw [Rules.revise_encode, Rules.text_rewrite_of_moved_eq_nil none]
    | rehearsed read some dry =>
      obtain ⟨access, held⟩ := leads.exists_of_readText read
      change run.tree.node? other = _
      rw [held, Option.map_some, revise, if_pos dry]
    | written read some wet written =>
      obtain ⟨access, held⟩ := leads.exists_of_readText read
      refine (leads.node?_of_writeText held written other).trans ?_
      rw [if_pos rfl, held, Option.map_some, revise_of_wet wet, Rules.revise_encode]
  · rw [if_neg same]
    cases h with
    | idle => rfl
    | rehearsed => rfl
    | written read some wet written =>
      obtain ⟨access, held⟩ := leads.exists_of_readText read
      exact (leads.node?_of_writeText held written other).trans (if_neg same)

lemma Visit.workingDirectory_eq (h : Visit job path run (after, .ok moved))
    (leads : run.tree.LeadsTo path location) :
    after.tree.workingDirectory = run.tree.workingDirectory := by
  cases h with
  | idle => rfl
  | rehearsed => rfl
  | written read some wet written =>
    obtain ⟨access, held⟩ := leads.exists_of_readText read
    obtain ⟨-, -, rfl⟩ := (leads.writeText_eq_ok_iff held).1 written
    exact run.tree.workingDirectory_insert _ _

/-- The file can be read, and written if a type moves in it. -/
def Clears (job : Job) (tree : Tree) (path : Path) : Prop :=
  ∃ text, tree.readText path = .ok text ∧
    ((job.rules.rewrite text).moved ≠ [] → job.dryRun = false →
      ∃ new, tree.writeText path (job.rules.rewrite text).text = .ok new)

lemma Visit.clears (h : Visit job path run (after, .ok moved)) : job.Clears run.tree path := by
  cases h with
  | idle read none => exact ⟨_, read, fun some => absurd none some⟩
  | rehearsed read some dry =>
    refine ⟨_, read, fun _ wet => ?_⟩
    rw [dry] at wet
    cases wet
  | written read some wet written => exact ⟨_, read, fun _ _ => ⟨_, written⟩⟩

lemma exists_of_clears (h : job.Clears run.tree path) :
    ∃ after moved, job.file path run = (after, .ok moved) := by
  obtain ⟨text, read, writable⟩ := h
  generalize same : job.file path run = reached
  have visit := same ▸ job.visit_file path run
  cases visit with
  | unread failed =>
    rw [read] at failed
    cases failed
  | idle => exact ⟨_, _, rfl⟩
  | rehearsed => exact ⟨_, _, rfl⟩
  | unwritten read' some wet failed =>
    rw [read] at read'
    cases read'
    obtain ⟨new, written⟩ := writable some wet
    rw [written] at failed
    cases failed
  | written => exact ⟨_, _, rfl⟩

lemma clears_iff (leads : tree.LeadsTo path location)
    (held : tree.node? location = some (.file content access)) :
    job.Clears tree path ↔ tree.Admits path ∧ access.readable = true ∧
      ∃ text, Utf8.decode? content = some text ∧
        ((job.rules.rewrite text).moved ≠ [] → job.dryRun = false → access.writable = true) := by
  simp only [Clears, leads.readText_eq_ok_iff held, leads.writeText_eq_ok_iff held]
  constructor
  · rintro ⟨text, ⟨admits, readable, decoded⟩, writes⟩
    refine ⟨admits, readable, text, decoded, fun some wet => ?_⟩
    obtain ⟨-, -, writable, -⟩ := writes some wet
    exact writable
  · rintro ⟨admits, readable, text, decoded, writable⟩
    exact ⟨text, ⟨admits, readable, decoded⟩,
      fun some wet => ⟨_, admits, writable some wet, rfl⟩⟩

/-! ### Visits that fail -/

/-- How a visit fails in a tree, with the clashes that have been told by then. -/
inductive Failure (job : Job) (tree : Tree) (path : Path) : Fault → List Clash → Prop
  | reading {error : AccessError} (failed : tree.read path = .error error) :
    Failure job tree path (.access path error) []
  | decoding {bytes : Bytes} (read : tree.read path = .ok bytes)
      (broken : Utf8.decode? bytes = none) : Failure job tree path (.notUtf8 path) []
  | writing {text : Text} {error : AccessError} (read : tree.readText path = .ok text)
      (some : (job.rules.rewrite text).moved ≠ []) (wet : job.dryRun = false)
      (failed : tree.write path (Utf8.encode (job.rules.rewrite text).text) = .error error) :
    Failure job tree path (.access path error) (job.rules.rewrite text).clashes

/-- The fault names the file. -/
lemma Failure.file?_eq {clashes : List Clash} (h : Failure job tree path fault clashes) :
    fault.file? = some path := by
  cases h with
  | reading => rfl
  | decoding => rfl
  | writing => rfl

lemma Visit.failure (h : Visit job path run (after, .error fault)) :
    after.tree = run.tree ∧ ∃ clashes, Failure job run.tree path fault clashes ∧
      after.summary = run.summary.record 1 [] (clashes.map (FileClash.mk path)) := by
  cases h with
  | unread failed =>
    refine ⟨rfl, [], ?_, ?_⟩
    · rw [Tree.readText] at failed
      split at failed
      case h_1 error unread =>
        cases failed
        exact .reading unread
      case h_2 bytes read =>
        split at failed
        case h_1 broken =>
          cases failed
          exact .decoding read broken
        case h_2 => cases failed
    · rw [Summary.record, List.map_nil, List.append_nil, List.append_nil]
      rfl
  | @unwritten text _ read some wet failed =>
    refine ⟨rfl, (job.rules.rewrite text).clashes, ?_, ?_⟩
    · cases done : run.tree.write path (Utf8.encode (job.rules.rewrite text).text) with
      | ok tree =>
        rw [Tree.writeText, done] at failed
        cases failed
      | error error =>
        rw [Tree.writeText, done] at failed
        cases failed
        exact .writing read some wet done
    · rw [Summary.record, List.append_nil]
      rfl

/-- A visit leaves the outline of the tree. -/
lemma Visit.alike (h : Visit job path run (after, result))
    (leads : run.tree.LeadsTo path location) :
    Tree.Alike run.tree after.tree := by
  cases result with
  | error fault =>
    rw [h.failure.1]
    exact .refl _
  | ok moved =>
    exact Tree.alike_of_map job.outline_revise (h.workingDirectory_eq leads) (h.node?_eq leads)

/-- A visit touches no other place. -/
lemma Visit.node?_of_ne (h : Visit job path run (after, result))
    (leads : run.tree.LeadsTo path location) {other : Location} (ne : other ≠ location) :
    after.tree.node? other = run.tree.node? other := by
  cases result with
  | error fault => rw [h.failure.1]
  | ok moved => rw [h.node?_eq leads, if_neg ne]

/-! ### Visits from the same tree -/

/-- Two ways on from runs `a` and `b` end in the same tree and with the same answer, and add the
same to the account. -/
structure Parallel (a b : Run) {α : Type} (first second : Run × Except Fault α) : Prop where
  tree : first.1.tree = second.1.tree
  answer : first.2 = second.2
  summary : a.summary = b.summary → first.1.summary = second.1.summary

lemma parallel_file (path : Path) (same : a.tree = b.tree) :
    Parallel a b (job.file path a) (job.file path b) := by
  obtain ⟨tree, summary, log⟩ := a
  obtain ⟨_, summary', log'⟩ := b
  cases same
  rw [file, file]
  dsimp only [Run.countFile, Run.note]
  cases tree.readText path with
  | error fault =>
    refine ⟨rfl, rfl, ?_⟩
    rintro ⟨⟩
    rfl
  | ok text =>
    dsimp only
    split
    case isTrue =>
      refine ⟨rfl, rfl, ?_⟩
      rintro ⟨⟩
      rfl
    case isFalse =>
      split
      case isTrue =>
        refine ⟨rfl, rfl, ?_⟩
        rintro ⟨⟩
        rfl
      case isFalse =>
        cases tree.writeText path (job.rules.rewrite text).text with
        | error fault =>
          refine ⟨rfl, rfl, ?_⟩
          rintro ⟨⟩
          rfl
        | ok new =>
          refine ⟨rfl, rfl, ?_⟩
          rintro ⟨⟩
          rfl

end Job

end Rehome
